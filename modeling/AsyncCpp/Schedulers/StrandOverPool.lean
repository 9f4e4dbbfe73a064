import AsyncCpp.Lib.Simulation
import AsyncCpp.Schedulers.PoolProgress
import AsyncCpp.Schedulers.StrandSchedulerDecorator

/-!
# A strand over a thread pool

A `StrandSchedulerDecorator` over a `ThreadPoolScheduler` over a `SimpleThreadPool`, with the
steps of the strand and of the pool. The wrapped item of the strand is an item of the pool: the
worker that has taken it runs the original function, then `markStrandOperationAsDone`, and then
goes on with its loop. `runOnOriginalScheduler` calls `EnqueueItem` of the pool while the strand
holds `_queueMutex`, and waits there for `_lockRoot`.

`ThreadPoolScheduler` says that it is serialized where the pool has one thread
(Schedulers/ThreadPoolScheduler.cpp:49-52); the strand then adds nothing of its own. Others may
enqueue items at the same pool. Its `Start` and `Stop` look at the state of the pool first
(lines 23-44).

Results:
* `strandPool_simulates_strand`, `strandPool_simulates_pool`: the two components.
* `strand_over_pool`: for every number of threads, at most one item of the strand runs at a time,
  in the order in which the items were enqueued, whatever `Stop` does; and while it is not
  called the strand comes to rest with all its items run.
-/

namespace AsyncCpp.Schedulers

open Interleaving

/-! ## The two components -/

/-- `strandItem` is history: for each call of `EnqueueItem` of the pool the item of the strand
    that it enqueued, if any. -/
structure StrandPool (n : ℕ) where
  strand : StrandSchedulerDecorator := {}
  pool : SimpleThreadPool n := {}
  strandItem : List (Option ℕ) := []

inductive StrandPoolLabel (n : ℕ) where
  /-- `Start` of the `ThreadPoolScheduler`. -/
  | start
  /-- `Stop` of the `ThreadPoolScheduler`. -/
  | stop
  | stopStep
  /-- `EnqueueItem` of the strand. Where it enqueues at the pool, `notify_one` wakes `w`. -/
  | enqueueItem (w : Option (Fin n))
  /-- The call with item `k` takes `_queueMutex`. -/
  | lock (k : ℕ)
  /-- The owner of `_queueMutex` goes on. -/
  | advance (w : Option (Fin n))
  /-- Somebody else calls `EnqueueItem` of the pool. -/
  | poolItem (w : Option (Fin n))
  /-- Worker `w` goes on. -/
  | work (w : Fin n)
  | spuriousWake (w : Fin n)

/-- The steps that need no new call and no spurious wakeup. -/
def StrandPoolLabel.own {n : ℕ} : StrandPoolLabel n → Prop
  | .lock _ | .advance _ | .work _ => True
  | _ => False

/-- `ThreadPoolScheduler::IsMethodInvocationSerialized`. -/
def poolIsSerialized (n : ℕ) : Bool := n == 1

/-- The item whose `markStrandOperationAsDone` it is. -/
def StrandCaller.marks : StrandCaller → List ℕ
  | .markStrandOperationAsDone k => [k]
  | .onEnqueueItem _ => []

/-- The item whose `markStrandOperationAsDone` holds `_queueMutex`. -/
def marks : Option (StrandCaller × StrandPc) → List ℕ
  | some (caller, _) => caller.marks
  | none => []

namespace StrandPool

variable {n : ℕ}

/-- The item of the strand that item `p` of the pool runs. -/
def item (s : StrandPool n) (p : ℕ) : Option ℕ := (s.strandItem[p]?).join

/-- A step of the pool. -/
def poolStep (s : StrandPool n) (a : PoolLabel n) : Option (StrandPool n) :=
  (s.pool.step a).map fun p => { s with pool := p }

/-- A step of the strand. -/
def strandStep (s : StrandPool n) (a : StrandLabel) : Option (StrandPool n) :=
  (s.strand.step (poolIsSerialized n) a).map fun st => { s with strand := st }

/-- `EnqueueItem` of the pool, with an item of the strand or another one. -/
def poolEnqueueItem (s : StrandPool n) (w : Option (Fin n)) (item : Option ℕ) :
    Option (StrandPool n) :=
  (s.pool.step (.enqueueItem w)).map fun p =>
    { s with pool := p, strandItem := s.strandItem ++ [item] }

/-- Worker `w` goes on; inside an item of the strand it runs the wrapped function
    (StrandSchedulerDecorator.cpp:54-61). -/
def work (s : StrandPool n) (w : Fin n) : Option (StrandPool n) :=
  match s.pool.pc w with
  | .take =>
    match s.pool.innerQueue.head?.bind s.item with
    | some k => (s.poolStep (.work w)).bind fun s => s.strandStep (.start k)
    | none => s.poolStep (.work w)
  | .running p =>
    match s.item p with
    | some k =>
      if k ∈ s.strand.running then s.strandStep (.finish k)
      else if k ∈ s.strand.marking then s.strandStep (.mark k)
      else if k ∈ marks s.strand.queueMutex then none
      else s.poolStep (.work w)
    | none => s.poolStep (.work w)
  | _ => s.poolStep (.work w)

def step (s : StrandPool n) : StrandPoolLabel n → Option (StrandPool n)
  | .start => if s.pool.threadPoolState = .started then some s else s.poolStep .start
  | .stop => if s.pool.threadPoolState = .stopped then some s else s.poolStep .stop
  | .stopStep => s.poolStep .stopStep
  | .enqueueItem w =>
    if poolIsSerialized n then
      (s.poolEnqueueItem w (some s.strand.calls)).bind fun s => s.strandStep .enqueueItem
    else if w.isNone then s.strandStep .enqueueItem else none
  | .lock k => s.strandStep (.lock k)
  | .advance w =>
    match s.strand.queueMutex with
    | some (_, .runOnOriginalScheduler k) =>
      (s.poolEnqueueItem w (some k)).bind fun s => s.strandStep .advance
    | _ => if w.isNone then s.strandStep .advance else none
  | .poolItem w => s.poolEnqueueItem w none
  | .work w => s.work w
  | .spuriousWake w => s.poolStep (.spuriousWake w)

end StrandPool

/-- A new strand over a new pool of `n` workers. -/
def strandPoolMachine (n : ℕ) : Machine (StrandPool n) (StrandPoolLabel n) where
  init := {}
  step := StrandPool.step

namespace StrandPool

variable {n : ℕ} {s s' : StrandPool n}

/-! ## What a step can be -/

/-- A step of the strand that hands nothing to the pool and takes nothing from it. -/
def Inside (s : StrandPool n) : StrandLabel → Prop
  | .enqueueItem => poolIsSerialized n = false
  | .advance => ∀ caller k, s.strand.queueMutex ≠ some (caller, .runOnOriginalScheduler k)
  | .start _ => False
  | .lock _ | .mark _ | .finish _ => True

/-- What a step does to the two components. -/
inductive Step (own : Prop) (s : StrandPool n) : StrandPool n → Prop
  | nothing (hown : ¬ own) : Step own s s
  /-- A step of the pool with items that are not the strand's. -/
  | pool {a : PoolLabel n} {p : SimpleThreadPool n} (hown : own → ∃ w, a = .work w)
    (hs : s.pool.step a = some p) (ha : ∀ w, a ≠ .enqueueItem w)
    (htake : ∀ w i q, a = .work w → s.pool.pc w = .take → s.pool.innerQueue = i :: q →
      s.item i = none)
    (hrun : ∀ w i k, a = .work w → s.pool.pc w = .running i → s.item i = some k →
      k ∉ s.strand.running ++ s.strand.marking ++ marks s.strand.queueMutex) :
    Step own s { s with pool := p }
  | inside {a : StrandLabel} {st : StrandSchedulerDecorator} (hown : own → a ≠ .enqueueItem)
    (ha : s.Inside a) (hs : s.strand.step (poolIsSerialized n) a = some st) :
    Step own s { s with strand := st }
  | poolItem {w : Option (Fin n)} {p : SimpleThreadPool n} (hown : ¬ own)
    (hs : s.pool.step (.enqueueItem w) = some p) :
    Step own s { s with pool := p, strandItem := s.strandItem ++ [none] }
  | handOver {w : Option (Fin n)} {p : SimpleThreadPool n} {a : StrandLabel} {k : ℕ}
    {st : StrandSchedulerDecorator} (hown : own → a ≠ .enqueueItem)
    (hs : s.pool.step (.enqueueItem w) = some p)
    (hst : s.strand.step (poolIsSerialized n) a = some st)
    (ha : a = .enqueueItem ∧ poolIsSerialized n = true ∧ k = s.strand.calls ∨
      a = .advance ∧ ∃ caller, s.strand.queueMutex = some (caller, .runOnOriginalScheduler k)) :
    Step own s { strand := st, pool := p, strandItem := s.strandItem ++ [some k] }
  | taken {w : Fin n} {p : SimpleThreadPool n} {i k : ℕ} {q : List ℕ}
    {st : StrandSchedulerDecorator} (hpc : s.pool.pc w = .take) (hq : s.pool.innerQueue = i :: q)
    (hi : s.item i = some k) (hs : s.pool.work w = some p)
    (hst : s.strand.step (poolIsSerialized n) (.start k) = some st) :
    Step own s { s with strand := st, pool := p }

theorem poolStep_eq_some {a : PoolLabel n} :
    s.poolStep a = some s' ↔ ∃ p, s.pool.step a = some p ∧ { s with pool := p } = s' :=
  Option.map_eq_some_iff

theorem strandStep_eq_some {a : StrandLabel} :
    s.strandStep a = some s' ↔
      ∃ st, s.strand.step (poolIsSerialized n) a = some st ∧ { s with strand := st } = s' :=
  Option.map_eq_some_iff

theorem handOver_of_eq_some {own : Prop} {w : Option (Fin n)} {a : StrandLabel} {k : ℕ}
    (hown : own → a ≠ .enqueueItem)
    (ha : a = .enqueueItem ∧ poolIsSerialized n = true ∧ k = s.strand.calls ∨
      a = .advance ∧ ∃ caller, s.strand.queueMutex = some (caller, .runOnOriginalScheduler k))
    (hs : ((s.poolEnqueueItem w (some k)).bind fun s => s.strandStep a) = some s') :
    Step own s s' := by
  obtain ⟨u, hu, hst⟩ := Option.bind_eq_some_iff.mp hs
  obtain ⟨p, hp, rfl⟩ := Option.map_eq_some_iff.mp hu
  obtain ⟨st, hstep, rfl⟩ := strandStep_eq_some.mp hst
  exact .handOver hown hp hstep ha

theorem work_cases {w : Fin n} (hs : s.work w = some s') : Step True s s' := by
  have hpool : ∀ {s'}, s.poolStep (.work w) = some s' →
      (∀ i q, s.pool.pc w = .take → s.pool.innerQueue = i :: q → s.item i = none) →
      (∀ i k, s.pool.pc w = .running i → s.item i = some k →
        k ∉ s.strand.running ++ s.strand.marking ++ marks s.strand.queueMutex) →
      Step True s s' := by
    intro s' hs htake hrun
    obtain ⟨p, hp, rfl⟩ := poolStep_eq_some.mp hs
    refine .pool (fun _ => ⟨w, rfl⟩) hp (by simp) ?_ ?_
    · rintro _ i q ⟨⟩
      exact htake i q
    · rintro _ i k ⟨⟩
      exact hrun i k
  unfold work at hs
  split at hs
  case h_1 hpc =>
    cases hq : s.pool.innerQueue with
    | nil =>
      simp only [hq, List.head?_nil, Option.bind_none] at hs
      exact hpool hs (by simp [hq]) (by simp [hpc])
    | cons i q =>
      simp only [hq, List.head?_cons, Option.bind_some] at hs
      cases hi : s.item i with
      | none =>
        simp only [hi] at hs
        refine hpool hs (fun j q' _ hj => ?_) (by simp [hpc])
        rw [hq] at hj
        cases hj
        exact hi
      | some k =>
        simp only [hi] at hs
        obtain ⟨u, hu, hst⟩ := Option.bind_eq_some_iff.mp hs
        obtain ⟨p, hp, rfl⟩ := poolStep_eq_some.mp hu
        obtain ⟨st, hstep, rfl⟩ := strandStep_eq_some.mp hst
        exact .taken hpc hq hi hp hstep
  case h_2 i hpc =>
    cases hi : s.item i with
    | none =>
      simp only [hi] at hs
      refine hpool hs (by simp [hpc]) fun j k hj hk => ?_
      rw [hpc] at hj
      cases hj
      rw [hi] at hk
      cases hk
    | some k =>
      simp only [hi] at hs
      split at hs
      · obtain ⟨st, hst, rfl⟩ := strandStep_eq_some.mp hs
        exact .inside (a := .finish k) (by simp) trivial hst
      split at hs
      · obtain ⟨st, hst, rfl⟩ := strandStep_eq_some.mp hs
        exact .inside (a := .mark k) (by simp) trivial hst
      split at hs
      · cases hs
      rename_i hrunning hmarking hmarks
      refine hpool hs (by simp [hpc]) fun j l hj hl => ?_
      rw [hpc] at hj
      cases hj
      rw [hi] at hl
      cases hl
      simp [hrunning, hmarking, hmarks]
  case h_3 htake hrunning =>
    exact hpool hs (fun _ _ hpc => absurd hpc htake) fun i _ hpc => absurd hpc (hrunning i)

theorem step_cases {a : StrandPoolLabel n} (hs : s.step a = some s') : Step a.own s s' := by
  have hpool : ∀ {own : Prop} {b : PoolLabel n} {s'}, ¬ own → s.poolStep b = some s' →
      (∀ w, b ≠ .enqueueItem w) → (∀ w, b ≠ .work w) → Step own s s' := by
    intro own b s' hown hs hb hw
    obtain ⟨p, hp, rfl⟩ := poolStep_eq_some.mp hs
    exact .pool (fun h => absurd h hown) hp hb (fun w _ _ h => absurd h (hw w))
      fun w _ _ h => absurd h (hw w)
  have hinside : ∀ {own : Prop} {b : StrandLabel} {s'}, (own → b ≠ .enqueueItem) →
      s.strandStep b = some s' → s.Inside b → Step own s s' := by
    intro own b s' hown hs hb
    obtain ⟨st, hst, rfl⟩ := strandStep_eq_some.mp hs
    exact .inside hown hb hst
  cases a with
  | start | stop =>
    simp only [step] at hs
    split at hs
    · cases hs
      exact .nothing id
    · exact hpool id hs (by simp) (by simp)
  | stopStep => exact hpool id hs (by simp) (by simp)
  | spuriousWake w => exact hpool id hs (by simp) (by simp)
  | work w => exact work_cases hs
  | lock k => exact hinside (by simp) hs trivial
  | poolItem w =>
    obtain ⟨p, hp, rfl⟩ := Option.map_eq_some_iff.mp hs
    exact .poolItem id hp
  | enqueueItem w =>
    simp only [step] at hs
    split at hs
    · rename_i hser
      exact handOver_of_eq_some False.elim (.inl ⟨rfl, hser, rfl⟩) hs
    · rename_i hser
      split at hs
      · exact hinside False.elim hs (Bool.not_eq_true _ ▸ hser :)
      · cases hs
  | advance w =>
    simp only [step] at hs
    split at hs
    case h_1 caller k hm =>
      exact handOver_of_eq_some (by simp) (.inr ⟨rfl, caller, hm⟩) hs
    case h_2 hm =>
      split at hs
      · exact hinside (by simp) hs fun caller k h => hm caller k h
      · cases hs

/-! ## The components by themselves -/

/-- What happens to the strand happens to a strand over some scheduler. -/
theorem strandPool_simulates_strand (n : ℕ) :
    Machine.Simulates (strandPoolMachine n) (strandMachine (poolIsSerialized n)) Machine.Any
      Machine.Any fun s st => s.strand = st where
  init := rfl
  step := by
    rintro s _ s' _ - - rfl - hst
    cases step_cases hst with
    | nothing | pool | poolItem => exact ⟨_, .refl, rfl⟩
    | inside _ _ hs => exact ⟨_, .single trivial hs, rfl⟩
    | handOver _ _ hs => exact ⟨_, .single trivial hs, rfl⟩
    | @taken _ _ _ k _ _ _ _ _ _ hs => exact ⟨_, .single (a := .start k) trivial hs, rfl⟩

/-- What happens to the pool happens to a pool. -/
theorem strandPool_simulates_pool (n : ℕ) :
    Machine.Simulates (strandPoolMachine n) (poolMachine n) Machine.Any Machine.Any
      fun s p => s.pool = p where
  init := rfl
  step := by
    rintro s _ s' _ - - rfl - hst
    cases step_cases hst with
    | nothing | inside => exact ⟨_, .refl, rfl⟩
    | pool _ hs | poolItem _ hs | handOver _ hs => exact ⟨_, .single trivial hs, rfl⟩
    | @taken w _ _ _ _ _ _ _ _ hs => exact ⟨_, .single (a := .work w) trivial hs, rfl⟩

theorem reachable_strand (h : (strandPoolMachine n).Reachable Machine.Any s) :
    (strandMachine (poolIsSerialized n)).Reachable Machine.Any s.strand := by
  obtain ⟨st, hst, rfl⟩ := (strandPool_simulates_strand n).reachable h
  exact hst

theorem reachable_pool (h : (strandPoolMachine n).Reachable Machine.Any s) :
    (poolMachine n).Reachable Machine.Any s.pool := by
  obtain ⟨p, hp, rfl⟩ := (strandPool_simulates_pool n).reachable h
  exact hp

end StrandPool

/-! ## The items of the strand in the pool -/

/-- The worker runs an item of the pool that is item `k` of the strand. -/
def WorkerPc.holds (item : ℕ → Option ℕ) (k : ℕ) : WorkerPc → ℕ
  | .running p => if item p = some k then 1 else 0
  | _ => 0

/-- The step of the pool leaves its queue and the running workers alone, or a worker takes an
    item, or one is done with its item. -/
inductive PoolMove {n : ℕ} (s s' : SimpleThreadPool n) (a : PoolLabel n) : Prop
  | quiet (hq : s'.innerQueue = s.innerQueue)
    (hpc : ∀ f : WorkerPc → ℕ, (∀ p, (∀ i, p ≠ .running i) → f p = 0) →
      tally f s'.pc = tally f s.pc)
  | took (w : Fin n) (i : ℕ) (ha : a = .work w) (hpc : s.pc w = .take)
    (hq : s.innerQueue = i :: s'.innerQueue) (hpc' : s'.pc = Function.update s.pc w (.running i))
  | ran (w : Fin n) (i : ℕ) (ha : a = .work w) (hpc : s.pc w = .running i)
    (hq : s'.innerQueue = s.innerQueue) (hpc' : s'.pc = Function.update s.pc w .untilTest)

namespace SimpleThreadPool

variable {n : ℕ} {s s' : SimpleThreadPool n}

/-- A worker that does not run an item moves to where it does not run one. -/
theorem quiet_update {w : Fin n} {p : WorkerPc} {a : PoolLabel n}
    (hpc : s'.pc = Function.update s.pc w p) (hq : s'.innerQueue = s.innerQueue)
    (hw : ∀ i, s.pc w ≠ .running i) (hp : ∀ i, p ≠ .running i) : PoolMove s s' a := by
  refine .quiet hq fun f hf => ?_
  have := tally_update f s.pc w p
  rw [hf _ hw, hf _ hp, ← hpc] at this
  omega

theorem move_of_work {w : Fin n} (hs : s.work w = some s') : PoolMove s s' (.work w) := by
  unfold work at hs
  split at hs <;> rename_i hpc
  case h_1 | h_2 | h_3 | h_5 | h_8 =>
    split at hs <;> cases hs <;> exact quiet_update rfl rfl (by simp [hpc]) (by simp)
  case h_4 =>
    cases hs
    exact quiet_update rfl rfl (by simp [hpc]) (by simp)
  case h_6 =>
    split at hs <;> cases hs
    exact .took w _ rfl hpc (by assumption) rfl
  case h_7 =>
    cases hs
    exact .ran w _ rfl hpc rfl rfl
  case h_9 | h_10 | h_11 => cases hs

theorem move_of_step (h : PoolInv s) {a : PoolLabel n} (ha : ∀ w, a ≠ .enqueueItem w)
    (hs : s.step a = some s') : PoolMove s s' a := by
  cases a with
  | enqueueItem w => exact absurd rfl (ha w)
  | work w => exact move_of_work hs
  | start =>
    simp only [step] at hs
    split_ifs at hs with hidle hst <;> cases hs
    · exact .quiet rfl fun _ _ => rfl
    · refine .quiet rfl fun f hf => ?_
      rw [h.threads.created (not_not.mp hst), tally_const (hf _ (by simp)),
        tally_const (hf _ (by simp))]
  | stop =>
    simp only [step] at hs
    split_ifs at hs <;> cases hs <;> exact .quiet rfl fun _ _ => rfl
  | stopStep =>
    simp only [step, stopStep] at hs
    split at hs
    case h_1 => cases hs
    case h_2 =>
      cases hs
      exact .quiet rfl fun _ _ => rfl
    case h_3 =>
      cases hs
      refine .quiet rfl fun f hf => tally_wake f (fun p => ?_) _
      cases p <;> simp [WorkerPc.wake, hf]
    case h_4 => split_ifs at hs <;> cases hs <;> exact .quiet rfl fun _ _ => rfl
  | spuriousWake w =>
    simp only [step] at hs
    split_ifs at hs with hpc
    cases hs
    exact quiet_update rfl rfl (by simp [hpc]) (by simp)

/-- The items in the queue and those the workers run have been enqueued. -/
theorem lt_enqueued_of_queue (h : PoolInv s) {i : ℕ} (hi : i ∈ s.innerQueue) : i < s.enqueued := by
  have hmem : i ∈ s.taken ++ s.innerQueue := List.mem_append_right _ hi
  rw [h.items.queue] at hmem
  exact List.mem_range.mp hmem

end SimpleThreadPool

namespace StrandPool

variable {n : ℕ} {s s' : StrandPool n}

/-- The items of the strand that are in the hands of workers. -/
def inHands (st : StrandSchedulerDecorator) : List ℕ :=
  st.running ++ st.marking ++ marks st.queueMutex

/-- The items handed over are those in the queue of the pool, in that order, and a worker is
    inside every item that has begun and not ended its `markStrandOperationAsDone`. -/
structure Glue (s : StrandPool n) : Prop where
  length : s.strandItem.length = s.pool.enqueued
  handed : s.strand.handed = s.pool.innerQueue.filterMap s.item
  held : ∀ k, (inHands s.strand).count k ≤ tally (WorkerPc.holds s.item k) s.pool.pc

theorem item_append (x : Option ℕ) (i : ℕ) (st : StrandSchedulerDecorator)
    (p : SimpleThreadPool n) :
    item { strand := st, pool := p, strandItem := s.strandItem ++ [x] } i =
      if i = s.strandItem.length then x else s.item i := by
  unfold item
  split_ifs with hi
  · subst hi
    simp
  · by_cases hlt : i < s.strandItem.length
    · rw [List.getElem?_append_left hlt]
    · rw [List.getElem?_eq_none (by simp; omega), List.getElem?_eq_none (by omega)]

theorem item_length (s : StrandPool n) : s.item s.strandItem.length = none := by
  simp [item]

theorem holds_le (x : Option ℕ) (k : ℕ) (st : StrandSchedulerDecorator) (p : SimpleThreadPool n)
    (pc : WorkerPc) :
    pc.holds s.item k ≤
      pc.holds (item { strand := st, pool := p, strandItem := s.strandItem ++ [x] }) k := by
  cases pc with
  | running i =>
    simp only [WorkerPc.holds, item_append]
    by_cases hi : i = s.strandItem.length
    · subst hi
      simp [item_length]
    · rw [if_neg hi]
  | _ => exact le_rfl

namespace Glue

/-- A call of `EnqueueItem` of the pool: its item is the last one of the queue. -/
theorem poolEnqueueItem (h : Glue s) (hi : PoolInv s.pool) {w : Option (Fin n)}
    {p : SimpleThreadPool n} (hs : s.pool.step (.enqueueItem w) = some p) (x : Option ℕ)
    {st : StrandSchedulerDecorator} (hhanded : st.handed = s.strand.handed ++ x.toList)
    (hhands : inHands st = inHands s.strand) :
    Glue { strand := st, pool := p, strandItem := s.strandItem ++ [x] } := by
  obtain ⟨hqueue, henqueued, htally⟩ : p.innerQueue = s.pool.innerQueue ++ [s.pool.enqueued] ∧
      p.enqueued = s.pool.enqueued + 1 ∧
      ∀ f : WorkerPc → ℕ, (∀ q, f q.wake = f q) → tally f p.pc = tally f s.pool.pc := by
    cases w with
    | none =>
      simp only [SimpleThreadPool.step] at hs
      split at hs <;> cases hs
      exact ⟨rfl, rfl, fun _ _ => rfl⟩
    | some w =>
      simp only [SimpleThreadPool.step] at hs
      split at hs <;> cases hs
      rename_i hfree
      exact ⟨rfl, rfl, fun f hf => tally_woken f hf hfree.2⟩
  refine ⟨?_, ?_, fun k => ?_⟩
  · simp [h.length, henqueued]
  · show st.handed = p.innerQueue.filterMap _
    have hsame : ∀ i ∈ s.pool.innerQueue,
        item { strand := st, pool := p, strandItem := s.strandItem ++ [x] } i = s.item i := by
      intro i hmem
      have := SimpleThreadPool.lt_enqueued_of_queue hi hmem
      rw [item_append, if_neg (by rw [h.length]; omega)]
    have hlast : item { strand := st, pool := p, strandItem := s.strandItem ++ [x] }
        s.pool.enqueued = x := by
      rw [item_append, if_pos h.length.symm]
    rw [hqueue, List.filterMap_append, List.filterMap_congr hsame, ← h.handed, hhanded]
    cases x <;> simp [hlast]
  · show (inHands st).count k ≤ tally (WorkerPc.holds _ k) p.pc
    rw [hhands, htally _ (fun q => by cases q <;> rfl)]
    exact (h.held k).trans (Finset.sum_le_sum fun u _ => holds_le x k st p (s.pool.pc u))

/-- A step of the pool with an item that is not the strand's. -/
theorem poolStep (h : Glue s) (hi : PoolInv s.pool) {a : PoolLabel n} {p : SimpleThreadPool n}
    (hs : s.pool.step a = some p) (ha : ∀ w, a ≠ .enqueueItem w)
    (htake : ∀ w i q, a = .work w → s.pool.pc w = .take → s.pool.innerQueue = i :: q →
      s.item i = none)
    (hrun : ∀ w i k, a = .work w → s.pool.pc w = .running i → s.item i = some k →
      k ∉ inHands s.strand) : Glue { s with pool := p } := by
  have hlen : s.strandItem.length = p.enqueued := by
    rw [h.length, SimpleThreadPool.enqueued_step hs ha]
  cases SimpleThreadPool.move_of_step hi ha hs with
  | quiet hq hpc =>
    refine ⟨hlen, ?_, fun k => ?_⟩
    · show s.strand.handed = p.innerQueue.filterMap s.item
      rw [hq, h.handed]
    · show (inHands s.strand).count k ≤ tally (WorkerPc.holds s.item k) p.pc
      rw [hpc _ (fun q hq => by cases q <;> first | rfl | exact absurd rfl (hq _))]
      exact h.held k
  | took w i haw hpc hq hpc' =>
    have hnone := htake w i p.innerQueue haw hpc hq
    refine ⟨hlen, ?_, fun k => ?_⟩
    · show s.strand.handed = p.innerQueue.filterMap s.item
      rw [h.handed, hq, List.filterMap_cons_none hnone]
    · show (inHands s.strand).count k ≤ tally (WorkerPc.holds s.item k) p.pc
      have htally := tally_update (WorkerPc.holds s.item k) s.pool.pc w (.running i)
      have hheld := h.held k
      rw [hpc, ← hpc'] at htally
      simp only [WorkerPc.holds, hnone, reduceCtorEq, if_false] at htally
      omega
  | ran w i haw hpc hq hpc' =>
    refine ⟨hlen, ?_, fun k => ?_⟩
    · show s.strand.handed = p.innerQueue.filterMap s.item
      rw [hq, h.handed]
    · show (inHands s.strand).count k ≤ tally (WorkerPc.holds s.item k) p.pc
      have htally := tally_update (WorkerPc.holds s.item k) s.pool.pc w .untilTest
      have hheld := h.held k
      rw [hpc, ← hpc'] at htally
      by_cases hk : s.item i = some k
      · have hnot := hrun w i k haw hpc hk
        rw [List.count_eq_zero_of_not_mem hnot]
        exact Nat.zero_le _
      · simp only [WorkerPc.holds, hk, if_false] at htally
        omega

/-- A step of the strand inside itself. -/
theorem inside (h : Glue s) {a : StrandLabel} (ha : s.Inside a) {st : StrandSchedulerDecorator}
    (hs : s.strand.step (poolIsSerialized n) a = some st) : Glue { s with strand := st } := by
  obtain ⟨hhanded, hle⟩ : st.handed = s.strand.handed ∧
      ∀ k, (inHands st).count k ≤ (inHands s.strand).count k := by
    cases a with
    | enqueueItem =>
      rw [StrandSchedulerDecorator.step, show poolIsSerialized n = false from ha] at hs
      cases hs
      exact ⟨rfl, fun _ => le_rfl⟩
    | start => exact ha.elim
    | lock l =>
      simp only [StrandSchedulerDecorator.step] at hs
      split at hs <;> cases hs
      refine ⟨rfl, fun k => ?_⟩
      rename_i hen
      simp [inHands, marks, StrandCaller.marks]
    | mark l =>
      simp only [StrandSchedulerDecorator.step] at hs
      split at hs <;> cases hs
      rename_i hen
      refine ⟨rfl, fun k => ?_⟩
      have hcount : (s.strand.marking.erase l).count k = _ := List.count_erase
      have hpos := List.count_pos_iff.mpr hen.1
      simp only [inHands, StrandSchedulerDecorator.goto, marks, StrandCaller.marks,
        Option.isNone_iff_eq_none.mp hen.2, List.count_append, List.count_singleton, hcount]
      by_cases hk : l = k
      · subst hk
        simp only [beq_self_eq_true, if_true]
        omega
      · simp [hk]
    | finish l =>
      simp only [StrandSchedulerDecorator.step] at hs
      split at hs <;> cases hs
      rename_i hen
      refine ⟨rfl, fun k => ?_⟩
      have hcount : (s.strand.running.erase l).count k = _ := List.count_erase
      have hpos := List.count_pos_iff.mpr hen
      have hmarking : (if poolIsSerialized n then s.strand.marking
          else s.strand.marking ++ [l]).count k ≤
          s.strand.marking.count k + if (l == k) = true then 1 else 0 := by
        cases poolIsSerialized n <;> simp [List.count_append, List.count_singleton]
      simp only [inHands, List.count_append, hcount]
      by_cases hk : l = k
      · subst hk
        simp only [beq_self_eq_true, if_true] at hmarking ⊢
        omega
      · simp only [beq_iff_eq, hk, if_false] at hmarking ⊢
        omega
    | advance =>
      cases StrandSchedulerDecorator.advance_cases hs with
      | handOver hm => exact absurd hm (ha _ _)
      | storeFalse hm | nothing hm | dequeued hm | busy hm | idle hm | storeTrue hm | push hm
      | enqueued hm | marked hm =>
        refine ⟨rfl, fun k => ?_⟩
        simp [inHands, StrandSchedulerDecorator.goto, marks, StrandCaller.marks, hm]
  exact ⟨h.length, hhanded.trans h.handed, fun k => (hle k).trans (h.held k)⟩

/-- A worker takes an item of the strand. -/
theorem taken (h : Glue s) {w : Fin n} {p : SimpleThreadPool n} {i k : ℕ} {q : List ℕ}
    {st : StrandSchedulerDecorator} (hpc : s.pool.pc w = .take) (hq : s.pool.innerQueue = i :: q)
    (hi : s.item i = some k) (hs : s.pool.work w = some p)
    (hst : s.strand.step (poolIsSerialized n) (.start k) = some st) :
    Glue { s with strand := st, pool := p } := by
  have hhanded : s.strand.handed = k :: q.filterMap s.item := by
    rw [h.handed, hq, List.filterMap_cons_some hi]
  simp only [SimpleThreadPool.work, hpc, hq, Option.some.injEq] at hs
  subst hs
  simp only [StrandSchedulerDecorator.step] at hst
  split at hst <;> cases hst
  refine ⟨h.length, ?_, fun l => ?_⟩
  · show s.strand.handed.erase k = q.filterMap s.item
    rw [hhanded, List.erase_cons_head]
  · show (s.strand.running ++ [k] ++ s.strand.marking ++ marks s.strand.queueMutex).count l ≤
      tally (WorkerPc.holds s.item l) (Function.update s.pool.pc w (.running i))
    have htally := tally_update (WorkerPc.holds s.item l) s.pool.pc w (.running i)
    have hheld := h.held l
    rw [hpc] at htally
    simp only [WorkerPc.holds, hi, Option.some.injEq, inHands, List.count_append,
      List.count_singleton, beq_iff_eq] at htally hheld ⊢
    omega

theorem step {own : Prop} (h : Glue s) (hi : PoolInv s.pool) (hs : Step own s s') : Glue s' := by
  cases hs with
  | nothing => exact h
  | pool _ hs ha htake hrun => exact h.poolStep hi hs ha htake hrun
  | inside _ ha hs => exact h.inside ha hs
  | poolItem _ hs => exact h.poolEnqueueItem hi hs none (by simp) rfl
  | taken hpc hq hi hs hst => exact h.taken hpc hq hi hs hst
  | @handOver _ _ _ k _ _ hs hst ha =>
    rcases ha with ⟨rfl, hser, rfl⟩ | ⟨rfl, caller, hm⟩
    · rw [StrandSchedulerDecorator.step, hser] at hst
      cases hst
      exact h.poolEnqueueItem hi hs (some _) rfl rfl
    · simp only [StrandSchedulerDecorator.step, StrandSchedulerDecorator.advance, hm] at hst
      cases hst
      refine h.poolEnqueueItem hi hs (some k) rfl ?_
      simp [inHands, StrandSchedulerDecorator.goto, marks, hm]

end Glue

theorem reachable_glue (h : (strandPoolMachine n).Reachable Machine.Any s) : Glue s := by
  refine h.invariant_with (fun _ hr => reachable_poolInv (reachable_pool hr)) ⟨rfl, rfl, fun k => ?_⟩
    fun _ _ _ hp hi _ hs => hi.step hp (step_cases hs)
  exact Nat.zero_le _

/-! ## One thread -/

/-- A pool of one thread holds one item. -/
theorem Glue.length_inHands_le {s : StrandPool 1} (h : Glue s) : (inHands s.strand).length ≤ 1 := by
  have htally : ∀ k, (inHands s.strand).count k ≤ (s.pool.pc 0).holds s.item k := by
    intro k
    have := h.held k
    rwa [tally, Finset.univ_unique, Finset.sum_singleton] at this
  rcases hl : inHands s.strand with _ | ⟨x, _ | ⟨y, l⟩⟩
  · simp
  · simp
  · exfalso
    rw [hl] at htally
    have hx := htally x
    have hy := htally y
    cases hpc : s.pool.pc 0 with
    | running i =>
      rw [hpc] at hx hy
      simp only [WorkerPc.holds, List.count_cons, beq_self_eq_true, if_true] at hx hy
      by_cases hix : s.item i = some x
      · by_cases hxy : y = x
        · subst hxy
          simp [hix] at hx
        · have hiy : s.item i ≠ some y := fun h => hxy (Option.some.inj (h.symm.trans hix))
          simp [hiy] at hy
      · simp [hix] at hx
    | _ =>
      rw [hpc] at hx
      simp [WorkerPc.holds] at hx

/-- A strand over a serialized scheduler: the items go to the scheduler at once. -/
structure SerialInv (st : StrandSchedulerDecorator) : Prop where
  plain : st.queueMutex = none ∧ st.waiting = [] ∧ st.marking = []
  order : st.enqueued = st.started ++ st.handed
  begun : st.started = st.finished ++ st.running
  calls : st.enqueued = List.range st.calls

theorem SerialInv.step {s s' : StrandPool 1} {own : Prop} (h : SerialInv s.strand) (hg : Glue s)
    (hs : Step own s s') : SerialInv s'.strand := by
  obtain ⟨hfree, hwaiting, hmarking⟩ := h.plain
  cases hs with
  | nothing | pool | poolItem => exact h
  | @inside a _ _ ha hs =>
    cases a with
    | enqueueItem => cases ha
    | start => exact ha.elim
    | lock k => simp [StrandSchedulerDecorator.step, hwaiting] at hs
    | mark k => simp [StrandSchedulerDecorator.step, hmarking] at hs
    | advance => simp [StrandSchedulerDecorator.step, StrandSchedulerDecorator.advance, hfree] at hs
    | finish k =>
      simp only [StrandSchedulerDecorator.step] at hs
      split at hs <;> cases hs
      rename_i hk
      have hrunning : s.strand.running = [k] := by
        have hle := hg.length_inHands_le
        rw [inHands, List.append_assoc] at hle
        exact (eq_singleton_of_mem hle hk).1
      refine ⟨⟨hfree, hwaiting, hmarking⟩, h.order, ?_, h.calls⟩
      show s.strand.started = s.strand.finished ++ [k] ++ s.strand.running.erase k
      rw [h.begun, hrunning]
      simp
  | handOver _ _ hst ha =>
    rcases ha with ⟨rfl, -, rfl⟩ | ⟨rfl, caller, hm⟩
    · cases hst
      refine ⟨⟨hfree, hwaiting, hmarking⟩, ?_, h.begun, ?_⟩
      · show s.strand.enqueued ++ _ = s.strand.started ++ (s.strand.handed ++ _)
        rw [h.order, List.append_assoc]
      · show s.strand.enqueued ++ [s.strand.calls] = List.range (s.strand.calls + 1)
        rw [h.calls, List.range_succ]
    · rw [hfree] at hm
      cases hm
  | @taken _ _ _ k q _ _ hq hi _ hst =>
    have hhanded : s.strand.handed = k :: q.filterMap s.item := by
      rw [hg.handed, hq, List.filterMap_cons_some hi]
    simp only [StrandSchedulerDecorator.step] at hst
    split at hst <;> cases hst
    refine ⟨⟨hfree, hwaiting, hmarking⟩, ?_, ?_, h.calls⟩
    · show s.strand.enqueued = s.strand.started ++ [k] ++ s.strand.handed.erase k
      rw [h.order, hhanded]
      simp
    · show s.strand.started ++ [k] = s.strand.finished ++ (s.strand.running ++ [k])
      rw [h.begun, List.append_assoc]

theorem reachable_serialInv {s : StrandPool 1} (h : (strandPoolMachine 1).Reachable Machine.Any s) :
    SerialInv s.strand :=
  h.invariant_with (I := fun s => SerialInv s.strand) (fun _ => reachable_glue)
    ⟨⟨rfl, rfl, rfl⟩, rfl, rfl, rfl⟩
    fun _ _ _ hg hi _ hs => hi.step hg (step_cases hs)

/-! ## Runs without new calls -/

/-- The steps that are possible without new calls. -/
def todo (s : StrandPool n) : ℕ := 12 * s.strand.remaining + s.pool.todo

theorem todo_enqueueItem {w : Option (Fin n)} {p p' : SimpleThreadPool n}
    (hs : p.step (.enqueueItem w) = some p') : p'.todo ≤ p.todo + 11 := by
  cases w with
  | none =>
    simp only [SimpleThreadPool.step] at hs
    split at hs <;> cases hs
    simp only [SimpleThreadPool.todo, List.length_append, List.length_singleton]
    omega
  | some w =>
    simp only [SimpleThreadPool.step] at hs
    split at hs <;> cases hs
    rename_i hfree
    have := tally_update WorkerPc.todo p.pc w .woken
    rw [hfree.2] at this
    simp only [SimpleThreadPool.todo, SimpleThreadPool.goto, WorkerPc.todo, List.length_append,
      List.length_singleton] at this ⊢
    omega

theorem todo_step {own : Prop} (hown : own) (hs : Step own s s') : s'.todo < s.todo := by
  unfold todo
  cases hs with
  | nothing hnot | poolItem hnot => exact absurd hown hnot
  | pool hw hs =>
    obtain ⟨w, rfl⟩ := hw hown
    have := SimpleThreadPool.todo_work hs
    dsimp only
    omega
  | inside ha _ hs =>
    have := StrandSchedulerDecorator.remaining_step (ha hown) hs
    dsimp only
    omega
  | handOver ha hs hst =>
    have := StrandSchedulerDecorator.remaining_step (ha hown) hst
    have := todo_enqueueItem hs
    dsimp only
    omega
  | taken _ _ _ hs hst =>
    have := StrandSchedulerDecorator.remaining_step (by simp) hst
    have := SimpleThreadPool.todo_work hs
    dsimp only
    omega

/-- The pool is started and `Stop` has not set `_quitRequest`. -/
def Serving (s : StrandPool n) : Prop :=
  s.pool.threadPoolState = .started ∧ s.pool.quitRequest = false

theorem Serving.step {own : Prop} (h : s.Serving) (hown : own) (hs : Step own s s') :
    s'.Serving := by
  have hwork : ∀ {w p}, s.pool.work w = some p →
      p.threadPoolState = .started ∧ p.quitRequest = false := by
    intro w p hs
    cases SimpleThreadPool.work_moves hs <;> exact h
  cases hs with
  | nothing hnot | poolItem hnot => exact absurd hown hnot
  | pool hw hs =>
    obtain ⟨w, rfl⟩ := hw hown
    exact hwork hs
  | inside => exact h
  | @handOver w _ _ _ _ _ hs =>
    cases w <;> simp only [SimpleThreadPool.step] at hs <;> split at hs <;> cases hs <;> exact h
  | taken _ _ _ hs => exact hwork hs

/-! ## Rest -/

/-- A worker that can go on in the pool can go on, unless it waits for `_queueMutex`. -/
theorem work_isSome (hg : Glue s) (hl : LockInv s.pool) {w : Fin n}
    (hw : (s.pool.work w).isSome)
    (hm : s.strand.queueMutex = none ∨ ∀ i, s.pool.pc w ≠ .running i) : (s.work w).isSome := by
  have hpool : (s.poolStep (.work w)).isSome := by
    simpa [poolStep, SimpleThreadPool.step] using hw
  obtain ⟨p, hp⟩ := Option.isSome_iff_exists.mp hw
  unfold work
  split
  case h_1 hpc =>
    obtain ⟨i, q, hq⟩ := List.exists_cons_of_ne_nil (hl.take w hpc)
    cases hi : s.item i with
    | none =>
      simp only [hq, List.head?_cons, Option.bind_some, hi]
      exact hpool
    | some k =>
      have hk : k ∈ s.strand.handed := by
        rw [hg.handed, hq, List.filterMap_cons_some hi]
        exact List.mem_cons_self
      simp [hq, hi, poolStep, SimpleThreadPool.step, hp, strandStep,
        StrandSchedulerDecorator.step, hk]
  case h_2 i hpc =>
    have hfree : s.strand.queueMutex = none := hm.resolve_right fun h => h i hpc
    cases hi : s.item i with
    | none => exact hpool
    | some k =>
      simp only
      split
      · rename_i hk
        simp [strandStep, StrandSchedulerDecorator.step, hk]
      split
      · rename_i hk
        simp [strandStep, StrandSchedulerDecorator.step, hk, hfree]
      split
      · rename_i hk
        simp [hfree, marks] at hk
      · exact hpool
  case h_3 => exact hpool

/-- The calls of `EnqueueItem` of the pool wait for `_lockRoot` only. -/
theorem exists_enqueueItem {p : SimpleThreadPool n} (hfree : p.lockRoot = none) :
    ∃ w p', p.step (.enqueueItem w) = some p' := by
  by_cases hparked : ∃ w, p.pc w = .parked
  · obtain ⟨w, hw⟩ := hparked
    exact ⟨some w, _, if_pos ⟨by rw [hfree]; rfl, hw⟩⟩
  · push Not at hparked
    exact ⟨none, _, if_pos ⟨by rw [hfree]; rfl, hparked⟩⟩

/-- Where the strand and the pool can go on with a new call only, no worker has an item. -/
theorem idle_of_atRest (hn : 0 < n) (h : (strandPoolMachine n).Reachable Machine.Any s)
    (hs : s.Serving) (hrest : (strandPoolMachine n).AtRest StrandPoolLabel.own s) :
    s.strand.queueMutex = none ∧ s.strand.waiting = [] ∧ s.strand.handed = [] ∧
      inHands s.strand = [] := by
  have hg := reachable_glue h
  have hp := reachable_pool h
  have hl := reachable_lockInv hp
  have hwake := reachable_wakeInv hn hp
  have hwork : ∀ w, s.work w = none := fun w => hrest (.work w) trivial
  have hnc : ∀ w, s.pool.pc w ≠ .notCreated := hl.started (by rw [hs.1]; simp)
  have hlock : s.pool.lockRoot = none := by
    cases hlock : s.pool.lockRoot with
    | none => rfl
    | some w =>
      have hholds := (hl.lock w).mp hlock
      obtain ⟨hlocks, hexited, -⟩ := WorkerPc.of_holdsLock hholds
      have hsome := work_isSome hg hl (hl.work_isSome (w := w) (by simp [hlocks])
        (by intro hpc; rw [hpc] at hholds; cases hholds) hexited (hnc w))
        (.inr fun i hpc => by rw [hpc] at hholds; cases hholds)
      rw [hwork w] at hsome
      cases hsome
  have hfree : s.strand.queueMutex = none := by
    by_contra hne
    obtain ⟨st, hst⟩ := Option.ne_none_iff_exists'.mp (StrandSchedulerDecorator.advance_isSome hne)
    have hstep : s.strand.step (poolIsSerialized n) .advance = some st := hst
    obtain ⟨w, p, hw⟩ := exists_enqueueItem hlock
    have hsome := hrest (.advance w) trivial
    have hnone := hrest (.advance none) trivial
    simp only [strandPoolMachine, StrandPool.step] at hsome hnone
    split at hsome
    · simp [poolEnqueueItem, hw, strandStep, hstep] at hsome
    · rename_i hm
      split at hnone
      case h_1 caller k hm' => exact hm _ _ hm'
      case h_2 => simp [strandStep, hstep] at hnone
  have hwaiting : s.strand.waiting = [] := by
    refine List.eq_nil_iff_forall_not_mem.mpr fun k hk => ?_
    have := hrest (.lock k) trivial
    simp [strandPoolMachine, StrandPool.step, strandStep, StrandSchedulerDecorator.step, hk,
      hfree] at this
  have hparked : ∀ w, s.pool.pc w = .parked := by
    intro w
    by_contra hne
    have hsome := work_isSome hg hl
      (hl.work_isSome (fun _ => hlock) hne (hwake.stays hs.2 w) (hnc w)) (.inl hfree)
    rw [hwork w] at hsome
    cases hsome
  have hempty : s.pool.innerQueue = [] := by
    by_contra hne
    obtain ⟨w, hw⟩ := hwake.awake hne
    exact hw (hparked w)
  refine ⟨hfree, hwaiting, by rw [hg.handed, hempty]; rfl, ?_⟩
  refine List.eq_nil_iff_forall_not_mem.mpr fun k hk => ?_
  have hpos := List.count_pos_iff.mpr hk
  have hheld := hg.held k
  rw [tally_eq_zero fun w => by rw [hparked w]; rfl] at hheld
  omega

/-- The items the strand has enqueued have been run when nothing can go on. -/
theorem finished_of_atRest (hn : 0 < n) (h : (strandPoolMachine n).Reachable Machine.Any s)
    (hs : s.Serving) (hrest : (strandPoolMachine n).AtRest StrandPoolLabel.own s) :
    s.strand.finished = s.strand.enqueued ∧
      s.strand.enqueued.Perm (List.range s.strand.calls) := by
  obtain ⟨hfree, hwaiting, hhanded, hhands⟩ := idle_of_atRest hn h hs hrest
  obtain ⟨hrm, -⟩ := List.append_eq_nil_iff.mp hhands
  obtain ⟨hrunning, hmarking⟩ := List.append_eq_nil_iff.mp hrm
  by_cases hone : n = 1
  · subst hone
    have hi := reachable_serialInv h
    refine ⟨?_, by rw [hi.calls]⟩
    rw [hi.order, hi.begun, hrunning, hhanded, List.append_nil, List.append_nil]
  · have hst := reachable_strand h
    rw [show poolIsSerialized n = false by simpa [poolIsSerialized] using hone] at hst
    have hi := reachable_strandInv hst
    obtain ⟨-, -, hfinished⟩ := hi.quiescent fun a ha => by
      cases a with
      | enqueueItem => exact absurd rfl ha
      | lock | mark | start | finish =>
        simp [StrandSchedulerDecorator.step, hwaiting, hmarking, hhanded, hrunning]
      | advance => simp [StrandSchedulerDecorator.step, StrandSchedulerDecorator.advance, hfree]
    have hcalls := hi.calls
    rw [hwaiting, List.append_nil] at hcalls
    exact ⟨hfinished, hcalls⟩

/-- The items of the strand run one at a time, in order. -/
theorem in_order (h : (strandPoolMachine n).Reachable Machine.Any s) :
    s.strand.running.length ≤ 1 ∧ s.strand.started <+: s.strand.enqueued ∧
      s.strand.finished <+: s.strand.started ∧ s.strand.enqueued.Nodup := by
  by_cases hone : n = 1
  · subst hone
    have hi := reachable_serialInv h
    have hle := (reachable_glue h).length_inHands_le
    simp only [inHands, List.length_append] at hle
    refine ⟨by omega, ?_, ?_, ?_⟩
    · rw [hi.order]
      exact List.prefix_append _ _
    · rw [hi.begun]
      exact List.prefix_append _ _
    · rw [hi.calls]
      exact List.nodup_range
  · have hst := reachable_strand h
    rw [show poolIsSerialized n = false by simpa [poolIsSerialized] using hone] at hst
    have hi := reachable_strandInv hst
    have hle := hi.length_inProgress_le
    simp only [StrandSchedulerDecorator.inProgress, List.length_append] at hle
    have hnodup : (s.strand.enqueued ++ s.strand.waiting).Nodup :=
      hi.calls.nodup_iff.mpr List.nodup_range
    refine ⟨by omega, ?_, ?_, (List.nodup_append.mp hnodup).1⟩
    · rw [hi.order]
      simp only [List.append_assoc]
      exact List.prefix_append _ _
    · rw [hi.begun]
      exact List.prefix_append _ _

end StrandPool

open StrandPool

/-- A strand over a pool of any number of threads, with other items in the pool: the items of
    the strand run one at a time, in the order in which they were enqueued, none twice, also
    while `Stop` is running. While the pool is started and `Stop` has not set its flag, the
    strand comes to rest without new calls after a bounded number of steps, and then every item
    has been run. -/
theorem strand_over_pool {n : ℕ} (hn : 0 < n) {s : StrandPool n}
    (h : (strandPoolMachine n).Reachable Machine.Any s) :
    (s.strand.running.length ≤ 1 ∧ s.strand.started <+: s.strand.enqueued ∧
      s.strand.finished <+: s.strand.started ∧ s.strand.enqueued.Nodup) ∧
    (s.Serving → ∀ as s', (∀ a ∈ as, a.own) → (strandPoolMachine n).run s as = some s' →
      as.length ≤ s.todo ∧
      ((strandPoolMachine n).AtRest StrandPoolLabel.own s' →
        s'.strand.finished = s'.strand.enqueued ∧
        s'.strand.enqueued.Perm (List.range s'.strand.calls))) := by
  refine ⟨in_order h, fun hs as s' hown hrun => ⟨?_, fun hrest => ?_⟩⟩
  · have := Machine.length_add_le (M := strandPoolMachine n) (I := fun _ => True)
      (μ := StrandPool.todo) (fun _ _ _ _ _ _ => trivial)
      (fun _ _ _ _ ha hst => StrandPool.todo_step ha (StrandPool.step_cases hst)) trivial hown hrun
    omega
  · have hserving := (Machine.Reaches.of_run_of hown hrun).preserves (I := StrandPool.Serving)
      (fun _ _ _ hi ha hst => hi.step ha (StrandPool.step_cases hst)) hs
    exact finished_of_atRest hn (h.trans (.of_run hrun)) hserving hrest

/-- Two workers and two items: the second waits in the strand while the first runs. -/
theorem strand_over_pool_two :
    ∃ s : StrandPool 2, (strandPoolMachine 2).Reachable Machine.Any s ∧ s.Serving ∧
      s.strand.running = [0] ∧ s.strand.strandQueue = [1] ∧ s.strand.running.length ≤ 1 := by
  have hr : (strandPoolMachine 2).run {} [.start, .enqueueItem none, .enqueueItem none, .lock 0,
    .advance none, .advance none, .advance none, .advance none, .work 0, .work 0, .work 0, .work 0,
    .lock 1, .advance none, .advance none] = some _ := rfl
  exact ⟨_, .of_run hr, ⟨rfl, rfl⟩, rfl, rfl, (strand_over_pool (by simp) (.of_run hr)).1.1⟩

end AsyncCpp.Schedulers
