import AsyncCpp.Lib.CallStacks
import AsyncCpp.Schedulers.StrandSchedulerDecorator

/-!
# A strand over a scheduler that runs items inside `EnqueueItem`

`OnEnqueueItem` calls `tryRunItem`, and through it `_scheduler->EnqueueItem`, while it holds
`_queueMutex` (StrandSchedulerDecorator.cpp:43-46). Where the inner scheduler runs the item
before its `EnqueueItem` returns, as `CurrentThreadScheduler` does, the wrapped item calls
`markStrandOperationAsDone` under that lock and locks `_queueMutex` again (lines 57-69). An
inner scheduler that says it is serialized gets the original function and no lock is taken
(lines 37-41); an item enqueued by an item then runs inside it.

A strand says it is serialized (lines 49-52), so a strand over a strand takes no lock, and the
one below it does what it does for items of its own. What decides is the scheduler below all
strands. In the repository that is `CurrentThreadScheduler`, which says it is not serialized.
A serialized one is not part of the repository: it runs an item on the calling thread, begins
it only when no other thread runs one, and leaves no thread waiting when none runs one.

Results:
* `inline_strand_iff`: every call returns with its items run once and no thread locks a
  `_queueMutex` twice, if and only if the scheduler below the strands is serialized; the items
  never overlap, if and only if moreover no item enqueues another one.
-/

namespace AsyncCpp.Schedulers

open Interleaving

/-! ## Items and frames -/

/-- An item: the items it enqueues on the strand, in order. -/
inductive StrandItem where
  | done
  | enqueueItem (item next : StrandItem)
  deriving DecidableEq, Repr

/-- A scheduler whose `EnqueueItem` runs the item: one that is no strand, or a strand over such
    a one. -/
inductive InlineScheduler where
  | direct (isMethodInvocationSerialized : Bool)
  | strand (scheduler : InlineScheduler)
  deriving DecidableEq, Repr

namespace InlineScheduler

/-- `CurrentThreadScheduler` (CurrentThreadScheduler.cpp:21-35). -/
def currentThread : InlineScheduler := .direct false

def isMethodInvocationSerialized : InlineScheduler → Bool
  | direct isMethodInvocationSerialized => isMethodInvocationSerialized
  | strand _ => true

/-- What the scheduler below all strands says. -/
def bottomSerialized : InlineScheduler → Bool
  | direct isMethodInvocationSerialized => isMethodInvocationSerialized
  | strand scheduler => scheduler.bottomSerialized

/-- The number of strands. -/
def depth : InlineScheduler → ℕ
  | direct _ => 0
  | strand scheduler => scheduler.depth + 1

end InlineScheduler

/-- A call on the stack of a thread; calls of `EnqueueItem` from outside and by items are
    numbered in the order they are made, and a call's number is its item. Of the methods of a
    strand, `scheduler` is its `_scheduler`. -/
inductive StrandFrame where
  /-- The original function of item `k`, called by the wrapper of a strand or directly. -/
  | originalFunction (wrapper : Option InlineScheduler) (k : ℕ) (rest : StrandItem)
  /-- `EnqueueItem` of `scheduler` with the original function of item `k`. -/
  | enqueueItem (scheduler : InlineScheduler) (k : ℕ) (item : StrandItem)
  /-- `markStrandOperationAsDone` before `lock_guard`. -/
  | markStrandOperationAsDone (scheduler : InlineScheduler) (k : ℕ)
  | tryDequeItem (scheduler : InlineScheduler) (caller : StrandCaller)
  | tryRunItem (scheduler : InlineScheduler) (caller : StrandCaller) (k : ℕ) (item : StrandItem)
  | unlock (scheduler : InlineScheduler) (caller : StrandCaller)
  deriving DecidableEq, Repr

namespace StrandFrame

/-- The frame is about to lock `_queueMutex` of the strand over `scheduler`. -/
def locks (scheduler : InlineScheduler) : StrandFrame → Bool
  | enqueueItem (.strand inner) _ _ => inner = scheduler && !inner.isMethodInvocationSerialized
  | markStrandOperationAsDone inner _ => inner = scheduler
  | _ => false

/-- The frame runs an original function. -/
def running : StrandFrame → ℕ
  | originalFunction _ _ _ => 1
  | _ => 0

end StrandFrame

/-- The data members of a strand. -/
structure StrandMembers (T : Type*) where
  strandQueue : List (ℕ × StrandItem) := []
  queueMutex : Option T := none
  operationInProgress : Bool := false

/-- The strands, each by the scheduler it is over, and the stack of each thread. The last four
    fields are history: the thread of each call of `EnqueueItem`, the items whose original
    function began and ended, and the calls that returned. -/
structure InlineStrand (T : Type*) where
  strand : InlineScheduler → StrandMembers T := fun _ => {}
  stack : T → List StrandFrame := fun _ => []
  callers : List T := []
  started : List ℕ := []
  finished : List ℕ := []
  returned : List ℕ := []

inductive InlineLabel (T : Type*) where
  /-- A thread outside of any call enqueues an item. -/
  | enqueueItem (t : T) (item : StrandItem)
  | run (t : T)

namespace InlineStrand

variable {T : Type*} [DecidableEq T]

/-- The stack of thread `t` becomes `frames`. -/
@[simp] def goto (s : InlineStrand T) (t : T) (frames : List StrandFrame) : InlineStrand T :=
  { s with stack := Function.update s.stack t frames }

/-- The members of the strand over `scheduler` become `members`. -/
@[simp] def setStrand (s : InlineStrand T) (scheduler : InlineScheduler)
    (members : StrandMembers T) : InlineStrand T :=
  { s with strand := Function.update s.strand scheduler members }

/-- Thread `t` calls `EnqueueItem` of the strand over `scheduler` with `item` above `frames`. -/
def call (scheduler : InlineScheduler) (s : InlineStrand T) (t : T) (item : StrandItem)
    (frames : List StrandFrame) : InlineStrand T :=
  { s.goto t (.enqueueItem (.strand scheduler) s.callers.length item :: frames) with
    callers := s.callers ++ [t] }

/-- The original function of item `k` begins above `frames`. -/
@[simp] def start (s : InlineStrand T) (t : T) (wrapper : Option InlineScheduler) (k : ℕ)
    (item : StrandItem) (frames : List StrandFrame) : InlineStrand T :=
  { s.goto t (.originalFunction wrapper k item :: frames) with started := s.started ++ [k] }

/-- Thread `t` goes on. `begins` says when the scheduler below the strands begins the item of a
    thread. -/
def run (scheduler : InlineScheduler) (begins : InlineStrand T → T → Bool) (s : InlineStrand T)
    (t : T) : Option (InlineStrand T) :=
  match s.stack t with
  | [] => none
  | .originalFunction wrapper k (.enqueueItem item next) :: frames =>
    some (s.call scheduler t item (.originalFunction wrapper k next :: frames))
  | .originalFunction none k .done :: frames =>
    some { s.goto t frames with finished := s.finished ++ [k], returned := s.returned ++ [k] }
  | .originalFunction (some inner) k .done :: frames =>
    some { s.goto t (.markStrandOperationAsDone inner k :: frames) with
      finished := s.finished ++ [k] }
  | .enqueueItem (.direct _) k item :: frames =>
    if begins s t then some (s.start t none k item frames) else none
  | .enqueueItem (.strand inner) k item :: frames =>
    -- `OnEnqueueItem` of the strand over `inner` (StrandSchedulerDecorator.cpp:35-47)
    if inner.isMethodInvocationSerialized then some (s.goto t (.enqueueItem inner k item :: frames))
    else if (s.strand inner).queueMutex.isNone then
      some ((s.goto t (.tryRunItem inner (.onEnqueueItem k) k item :: frames)).setStrand inner
        { s.strand inner with queueMutex := some t })
    else none
  | .markStrandOperationAsDone inner k :: frames =>
    if (s.strand inner).queueMutex.isNone then
      some ((s.goto t (.tryDequeItem inner (.markStrandOperationAsDone k) :: frames)).setStrand
        inner { s.strand inner with queueMutex := some t, operationInProgress := false })
    else none
  | .tryDequeItem inner caller :: frames =>
    match (s.strand inner).strandQueue with
    | [] => some (s.goto t (.unlock inner caller :: frames))
    | (k, item) :: strandQueue =>
      some ((s.goto t (.tryRunItem inner caller k item :: frames)).setStrand inner
        { s.strand inner with strandQueue := strandQueue })
  | .tryRunItem inner caller k item :: frames =>
    if (s.strand inner).operationInProgress then
      some ((s.goto t (.unlock inner caller :: frames)).setStrand inner
        { s.strand inner with strandQueue := (s.strand inner).strandQueue ++ [(k, item)] })
    else
      -- `inner` is not serialized, so it is no strand: its `EnqueueItem` runs the wrapped item
      -- before it returns
      some ((s.start t (some inner) k item (.unlock inner caller :: frames)).setStrand inner
        { s.strand inner with operationInProgress := true })
  | .unlock inner (.onEnqueueItem k) :: frames =>
    some { (s.goto t frames).setStrand inner { s.strand inner with queueMutex := none } with
      returned := s.returned ++ [k] }
  | .unlock inner (.markStrandOperationAsDone _) :: frames =>
    some ((s.goto t frames).setStrand inner { s.strand inner with queueMutex := none })

def step (scheduler : InlineScheduler) (begins : InlineStrand T → T → Bool) (s : InlineStrand T) :
    InlineLabel T → Option (InlineStrand T)
  | .enqueueItem t item => if s.stack t = [] then some (s.call scheduler t item []) else none
  | .run t => s.run scheduler begins t

omit [DecidableEq T] in
/-- Thread `t` is about to lock a `_queueMutex` and holds it. -/
def Relocks (s : InlineStrand T) (t : T) : Prop :=
  ∃ scheduler, SelfLock (s.strand scheduler).queueMutex (StrandFrame.locks scheduler) s.stack t

/-- The item of call `k` ran once and the call returned. -/
def Done (s : InlineStrand T) (k : ℕ) : Prop :=
  s.started.count k = 1 ∧ s.finished.count k = 1 ∧ s.returned.count k = 1

/-- No thread but `t` runs an original function. -/
def OthersIdle (s : InlineStrand T) (t : T) : Prop :=
  ∀ u, u ≠ t → weigh StrandFrame.running (s.stack u) = 0

instance [Fintype T] (s : InlineStrand T) (t : T) : Decidable (s.OthersIdle t) :=
  inferInstanceAs (Decidable (∀ u, u ≠ t → weigh StrandFrame.running (s.stack u) = 0))

/-- Thread `t` is in `EnqueueItem` of the scheduler below the strands. -/
def Waiting (s : InlineStrand T) (t : T) : Prop :=
  ∃ serialized k item frames, s.stack t = .enqueueItem (.direct serialized) k item :: frames

end InlineStrand

/-- What a scheduler that runs items inside `EnqueueItem` and says it is serialized does: it
    begins an item only when no other thread runs one, and then it begins one. -/
structure RunsInTurn {T : Type*} (begins : InlineStrand T → T → Bool) : Prop where
  serialized : ∀ s t, begins s t → s.OthersIdle t
  serves : ∀ s t, s.Waiting t → s.OthersIdle t → ∃ u, s.Waiting u ∧ begins s u

/-- The machine of a strand over `scheduler`, before any call. -/
def inlineMachine (scheduler : InlineScheduler) {T : Type*} [DecidableEq T]
    (begins : InlineStrand T → T → Bool) : Machine (InlineStrand T) (InlineLabel T) where
  init := {}
  step := InlineStrand.step scheduler begins

/-- The threads enqueue items of `items` only. -/
def Enqueues {T : Type*} (items : StrandItem → Prop) (_ : InlineStrand T) (a : InlineLabel T) :
    Prop :=
  ∀ t item, a = .enqueueItem t item → items item

/-! ## What the strand should do -/

section Spec

variable (scheduler : InlineScheduler) {T : Type*} [DecidableEq T]
  (begins : InlineStrand T → T → Bool) (items : StrandItem → Prop)

/-- Every call of `EnqueueItem` returns with its items run once, and no thread locks a
    `_queueMutex` twice: every call a thread made is over when the thread is outside of any
    call, some thread can go on as long as one is inside a call, and threads that go on come
    to an end. -/
structure CallsReturn : Prop where
  noRelock : ∀ s, (inlineMachine scheduler begins).Reachable (Enqueues items) s →
    ∀ t, ¬ s.Relocks t
  once : ∀ s, (inlineMachine scheduler begins).Reachable (Enqueues items) s →
    ∀ k, s.started.count k ≤ 1
  done : ∀ s, (inlineMachine scheduler begins).Reachable (Enqueues items) s →
    ∀ t, s.stack t = [] → ∀ k, s.callers[k]? = some t → s.Done k
  goesOn : ∀ s, (inlineMachine scheduler begins).Reachable (Enqueues items) s →
    (∃ t, s.stack t ≠ []) → ∃ t, (s.run scheduler begins t).isSome
  ends : ∃ work : InlineStrand T → ℕ, ∀ s t s',
    (inlineMachine scheduler begins).Reachable (Enqueues items) s →
    s.run scheduler begins t = some s' → work s' < work s

/-- At most one original function runs. -/
def NeverOverlapping [Fintype T] : Prop :=
  ∀ s, (inlineMachine scheduler begins).Reachable (Enqueues items) s →
    tally (weigh StrandFrame.running) s.stack ≤ 1

end Spec

/-! ## A serialized scheduler below the strands -/

namespace StrandItem

/-- The work an item makes for the threads, `n` strands being passed by every call. -/
def size (n : ℕ) : StrandItem → ℕ
  | done => 1
  | enqueueItem item next => item.size n + next.size n + n + 3

end StrandItem

namespace StrandFrame

/-- The call of a frame of a strand that takes no lock. -/
def serialCall : StrandFrame → Option ℕ
  | originalFunction none k _ => some k
  | enqueueItem scheduler k _ => if scheduler.bottomSerialized then some k else none
  | _ => none

/-- The item of call `k` is about to begin. -/
def pending (k : ℕ) : StrandFrame → ℕ
  | enqueueItem _ j _ => if j = k then 1 else 0
  | _ => 0

/-- The original function of item `k` runs. -/
def runs (k : ℕ) : StrandFrame → ℕ
  | originalFunction _ j _ => if j = k then 1 else 0
  | _ => 0

/-- The work left in a frame. -/
def work (n : ℕ) : StrandFrame → ℕ
  | originalFunction _ _ rest => rest.size n
  | enqueueItem scheduler _ item => item.size n + scheduler.depth + 1
  | _ => 0

theorem serialCall_enqueueItem {scheduler : InlineScheduler} {k j : ℕ} {item : StrandItem}
    (h : (enqueueItem scheduler k item).serialCall = some j) :
    scheduler.bottomSerialized = true ∧ k = j := by
  simpa [serialCall] using h

/-- A frame carries nothing of other calls than its own. -/
theorem weights_eq_zero {j k : ℕ} {f : StrandFrame} (h : f.serialCall = some j) (hjk : j ≠ k) :
    f.pending k = 0 ∧ f.runs k = 0 := by
  cases f with
  | originalFunction wrapper i rest =>
    cases wrapper with
    | none =>
      cases h
      simp [pending, runs, hjk]
    | some inner => cases h
  | enqueueItem inner i item =>
    obtain ⟨-, rfl⟩ := serialCall_enqueueItem h
    simp [pending, runs, hjk]
  | _ => cases h

end StrandFrame

variable {T : Type*} {items : StrandItem → Prop} {scheduler : InlineScheduler}
  {begins : InlineStrand T → T → Bool}

/-- The invariant over a serialized scheduler: nobody takes a lock, a call is on the stack of
    the thread that made it, and original functions run on one thread only. -/
structure SerialInv (s : InlineStrand T) : Prop where
  mutex : ∀ scheduler, (s.strand scheduler).queueMutex = none
  caller : ∀ t, ∀ f ∈ s.stack t, ∃ k, f.serialCall = some k ∧ s.callers[k]? = some t
  oneThread : ∀ t u, weigh StrandFrame.running (s.stack t) ≠ 0 →
    weigh StrandFrame.running (s.stack u) ≠ 0 → t = u
  once : ∀ k t, s.callers[k]? = some t →
    weigh (StrandFrame.pending k) (s.stack t) + s.started.count k = 1
  ran : ∀ k t, s.callers[k]? = some t →
    weigh (StrandFrame.runs k) (s.stack t) + s.finished.count k = s.started.count k
  returned : s.returned = s.finished
  fresh : ∀ k, s.callers.length ≤ k → s.started.count k = 0 ∧ s.finished.count k = 0

namespace SerialInv

variable {s s' : InlineStrand T} {t : T} {frames : List StrandFrame}

/-- No frame belongs to a call that was not made. -/
theorem weigh_fresh (h : SerialInv s) {k : ℕ} (hk : s.callers.length ≤ k) :
    weigh (StrandFrame.pending k) (s.stack t) = 0 ∧
      weigh (StrandFrame.runs k) (s.stack t) = 0 := by
  have hzero : ∀ f ∈ s.stack t, f.pending k = 0 ∧ f.runs k = 0 := by
    intro f hf
    obtain ⟨j, hj, hcaller⟩ := h.caller t f hf
    refine StrandFrame.weights_eq_zero hj ?_
    have hlt := (List.getElem?_eq_some_iff.mp hcaller).1
    omega
  exact ⟨weigh_eq_zero fun f hf => (hzero f hf).1, weigh_eq_zero fun f hf => (hzero f hf).2⟩

/-- The running frame belongs to a call that its thread made. -/
theorem callers_of_top (h : SerialInv s) {f : StrandFrame} {k : ℕ} (ht : s.stack t = f :: frames)
    (hf : f.serialCall = some k) : s.callers[k]? = some t := by
  obtain ⟨j, hj, hcaller⟩ := h.caller t f (by rw [ht]; exact List.mem_cons_self)
  rw [hf] at hj
  cases hj
  exact hcaller

/-- Calls of two threads have two numbers. -/
theorem ne_of_callers {j k : ℕ} {u : T} (hk : s.callers[k]? = some t) (hj : s.callers[j]? = some u)
    (hu : u ≠ t) : k ≠ j := by
  rintro rfl
  rw [hk] at hj
  exact hu (Option.some.inj hj).symm

/-- The item of a call runs once, and by the time its thread is outside of any call it has run
    and the call has returned. -/
theorem done (h : SerialInv s) (ht : s.stack t = []) {k : ℕ} (hk : s.callers[k]? = some t) :
    s.Done k := by
  have h1 := h.once k t hk
  have h2 := h.ran k t hk
  rw [ht, weigh_nil] at h1 h2
  refine ⟨by omega, by omega, ?_⟩
  rw [h.returned]
  omega

variable [DecidableEq T]

/-- A call of `EnqueueItem`, from outside or by an item. -/
theorem call (h : SerialInv s) (hserial : scheduler.bottomSerialized = true) (item : StrandItem)
    (hcaller : ∀ f ∈ frames, ∃ k, f.serialCall = some k ∧ s.callers[k]? = some t)
    (hrunning : weigh StrandFrame.running frames = weigh StrandFrame.running (s.stack t))
    (hpending : ∀ k, weigh (StrandFrame.pending k) frames =
      weigh (StrandFrame.pending k) (s.stack t))
    (hruns : ∀ k, weigh (StrandFrame.runs k) frames = weigh (StrandFrame.runs k) (s.stack t)) :
    SerialInv (s.call scheduler t item frames) := by
  have hsame : ∀ u, weigh StrandFrame.running ((s.call scheduler t item frames).stack u) =
      weigh StrandFrame.running (s.stack u) := by
    intro u
    by_cases hu : u = t
    · subst hu
      simp [InlineStrand.call, StrandFrame.running, hrunning]
    · simp [InlineStrand.call, Function.update_of_ne hu]
  have hold : ∀ (k : ℕ) (u : T), (s.callers ++ [t])[k]? = some u →
      s.callers[k]? = some u ∨ k = s.callers.length ∧ u = t := by
    intro k u hk
    rcases Nat.lt_or_ge k s.callers.length with hlt | hge
    · rw [List.getElem?_append_left hlt] at hk
      exact .inl hk
    · rw [List.getElem?_append_right hge, List.getElem?_singleton] at hk
      split_ifs at hk with h0
      exact .inr ⟨by omega, (Option.some.inj hk).symm⟩
  have hkeep : ∀ (k : ℕ) (u : T), s.callers[k]? = some u → (s.callers ++ [t])[k]? = some u := by
    intro k u hk
    rw [List.getElem?_append_left (List.getElem?_eq_some_iff.mp hk).1, hk]
  refine ⟨h.mutex, fun u f hf => ?_, fun u v hu hv => ?_, fun k u hk => ?_, fun k u hk => ?_,
    h.returned, fun k hk => ?_⟩
  · by_cases hu : u = t
    · subst hu
      rw [show (s.call scheduler u item frames).stack u = _ from Function.update_self ..] at hf
      rcases List.mem_cons.mp hf with rfl | hf
      · exact ⟨s.callers.length, if_pos hserial, List.getElem?_concat_length⟩
      · obtain ⟨k, hcall, hk⟩ := hcaller f hf
        exact ⟨k, hcall, hkeep k _ hk⟩
    · rw [show (s.call scheduler t item frames).stack u = _ from Function.update_of_ne hu ..] at hf
      obtain ⟨k, hcall, hk⟩ := h.caller u f hf
      exact ⟨k, hcall, hkeep k _ hk⟩
  · rw [hsame] at hu hv
    exact h.oneThread u v hu hv
  · rcases hold k u hk with hk₀ | ⟨rfl, rfl⟩
    · have hne : s.callers.length ≠ k := by
        have := (List.getElem?_eq_some_iff.mp hk₀).1
        omega
      by_cases hu : u = t
      · subst hu
        simpa [InlineStrand.call, StrandFrame.pending, hne, hpending] using h.once k u hk₀
      · simpa [InlineStrand.call, Function.update_of_ne hu] using h.once k u hk₀
    · obtain ⟨h1, -⟩ := h.weigh_fresh (t := u) le_rfl
      simp [InlineStrand.call, StrandFrame.pending, hpending, h1, (h.fresh _ le_rfl).1]
  · rcases hold k u hk with hk₀ | ⟨rfl, rfl⟩
    · by_cases hu : u = t
      · subst hu
        simpa [InlineStrand.call, StrandFrame.runs, hruns] using h.ran k u hk₀
      · simpa [InlineStrand.call, Function.update_of_ne hu] using h.ran k u hk₀
    · obtain ⟨-, h2⟩ := h.weigh_fresh (t := u) le_rfl
      obtain ⟨h3, h4⟩ := h.fresh _ le_rfl
      simp [InlineStrand.call, StrandFrame.runs, hruns, h2, h3, h4]
  · have hk' : s.callers.length ≤ k := by
      simp only [InlineStrand.call, InlineStrand.goto, List.length_append, List.length_singleton]
        at hk
      omega
    exact h.fresh k hk'

/-- A strand over a serialized scheduler hands the item on. -/
theorem pass (h : SerialInv s) {inner : InlineScheduler} {k : ℕ} {item : StrandItem}
    (ht : s.stack t = .enqueueItem (.strand inner) k item :: frames) :
    SerialInv (s.goto t (.enqueueItem inner k item :: frames)) := by
  have hsame : ∀ (w : StrandFrame → ℕ), w (.enqueueItem (.strand inner) k item) =
      w (.enqueueItem inner k item) → ∀ u,
        weigh w ((s.goto t (.enqueueItem inner k item :: frames)).stack u) =
          weigh w (s.stack u) := by
    intro w hw u
    by_cases hu : u = t
    · subst hu
      simp [ht, hw]
    · simp [Function.update_of_ne hu]
  have hrunning := hsame StrandFrame.running rfl
  refine ⟨h.mutex, fun u f hf => ?_, fun u v hu hv => ?_, fun j u hj => ?_, fun j u hj => ?_,
    h.returned, h.fresh⟩
  · by_cases hu : u = t
    · subst hu
      simp only [InlineStrand.goto, Function.update_self, List.mem_cons] at hf
      rcases hf with rfl | hf
      · obtain ⟨j, hj, hcaller⟩ := h.caller u _ (by rw [ht]; exact List.mem_cons_self)
        exact ⟨j, hj, hcaller⟩
      · exact h.caller u f (by rw [ht]; exact List.mem_cons_of_mem _ hf)
    · rw [show (s.goto t (.enqueueItem inner k item :: frames)).stack u = _ from
        Function.update_of_ne hu ..] at hf
      exact h.caller u f hf
  · rw [hrunning] at hu hv
    exact h.oneThread u v hu hv
  · rw [hsame (StrandFrame.pending j) rfl]
    exact h.once j u hj
  · rw [hsame (StrandFrame.runs j) rfl]
    exact h.ran j u hj

/-- An original function begins when no other thread runs one. -/
theorem start (h : SerialInv s) {serialized : Bool} {k : ℕ} {item : StrandItem}
    (ht : s.stack t = .enqueueItem (.direct serialized) k item :: frames) (hidle : s.OthersIdle t) :
    SerialInv (s.start t none k item frames) := by
  have hcall : s.callers[k]? = some t := by
    obtain ⟨j, hj, hcaller⟩ := h.caller t _ (by rw [ht]; exact List.mem_cons_self)
    obtain ⟨-, rfl⟩ := StrandFrame.serialCall_enqueueItem hj
    exact hcaller
  have hother : ∀ u, u ≠ t →
      weigh StrandFrame.running ((s.start t none k item frames).stack u) = 0 := by
    intro u hu
    rw [show (s.start t none k item frames).stack u = _ from Function.update_of_ne hu ..]
    exact hidle u hu
  refine ⟨h.mutex, fun u f hf => ?_, fun u v hu hv => ?_, fun j u hj => ?_, fun j u hj => ?_,
    h.returned, fun j hj => ?_⟩
  · by_cases hu : u = t
    · subst hu
      rw [show (s.start u none k item frames).stack u = _ from Function.update_self ..] at hf
      rcases List.mem_cons.mp hf with rfl | hf
      · exact ⟨k, rfl, hcall⟩
      · exact h.caller u f (by rw [ht]; exact List.mem_cons_of_mem _ hf)
    · rw [show (s.start t none k item frames).stack u = _ from Function.update_of_ne hu ..] at hf
      exact h.caller u f hf
  · have hut : u = t := by
      by_contra hne
      exact hu (hother u hne)
    have hvt : v = t := by
      by_contra hne
      exact hv (hother v hne)
    rw [hut, hvt]
  · have hold := h.once j u hj
    by_cases hu : u = t
    · subst hu
      rw [ht] at hold
      simp [StrandFrame.pending, List.count_singleton] at hold ⊢
      omega
    · have hjk : k ≠ j := ne_of_callers hcall hj hu
      simpa [Function.update_of_ne hu, List.count_singleton, hjk] using hold
  · have hold := h.ran j u hj
    by_cases hu : u = t
    · subst hu
      rw [ht] at hold
      simp [StrandFrame.runs, List.count_singleton] at hold ⊢
      omega
    · have hjk : k ≠ j := ne_of_callers hcall hj hu
      simpa [Function.update_of_ne hu, List.count_singleton, hjk] using hold
  · have hjk : k ≠ j := by
      have := (List.getElem?_eq_some_iff.mp hcall).1
      simp only [InlineStrand.start, InlineStrand.goto] at hj
      omega
    obtain ⟨h1, h2⟩ := h.fresh j hj
    refine ⟨?_, h2⟩
    simpa [List.count_singleton, hjk] using h1

/-- An original function returns, and with it the call. -/
theorem finish (h : SerialInv s) {k : ℕ}
    (ht : s.stack t = .originalFunction none k .done :: frames) :
    SerialInv { s.goto t frames with
      finished := s.finished ++ [k], returned := s.returned ++ [k] } := by
  have hcall : s.callers[k]? = some t := h.callers_of_top ht rfl
  have hsub : ∀ u, weigh StrandFrame.running (Function.update s.stack t frames u) ≠ 0 →
      weigh StrandFrame.running (s.stack u) ≠ 0 := by
    intro u hu
    by_cases hut : u = t
    · subst hut
      rw [ht]
      simp [StrandFrame.running]
    · rwa [Function.update_of_ne hut] at hu
  refine ⟨h.mutex, fun u f hf => ?_, fun u v hu hv => h.oneThread u v (hsub u hu) (hsub v hv),
    fun j u hj => ?_, fun j u hj => ?_, ?_, fun j hj => ?_⟩
  · by_cases hu : u = t
    · subst hu
      simp only [InlineStrand.goto, Function.update_self] at hf
      exact h.caller u f (by rw [ht]; exact List.mem_cons_of_mem _ hf)
    · simp only [InlineStrand.goto, Function.update_of_ne hu] at hf
      exact h.caller u f hf
  · have hold := h.once j u hj
    by_cases hu : u = t
    · subst hu
      rw [ht] at hold
      simpa [StrandFrame.pending] using hold
    · simpa [Function.update_of_ne hu] using hold
  · have hold := h.ran j u hj
    by_cases hu : u = t
    · subst hu
      rw [ht] at hold
      simp [StrandFrame.runs, List.count_singleton] at hold ⊢
      omega
    · have hjk : k ≠ j := ne_of_callers hcall hj hu
      simpa [Function.update_of_ne hu, List.count_singleton, hjk] using hold
  · show s.returned ++ [k] = s.finished ++ [k]
    rw [h.returned]
  · have hjk : k ≠ j := by
      have := (List.getElem?_eq_some_iff.mp hcall).1
      simp only [InlineStrand.goto] at hj
      omega
    obtain ⟨h1, h2⟩ := h.fresh j hj
    refine ⟨h1, ?_⟩
    simpa [List.count_singleton, hjk] using h2

/-- A thread that goes on keeps the invariant, and has less work left. -/
theorem run (h : SerialInv s) (hserial : scheduler.bottomSerialized = true)
    (hbegins : RunsInTurn begins) (hs : s.run scheduler begins t = some s') :
    SerialInv s' ∧ ∃ stack, s'.stack = Function.update s.stack t stack ∧
      weigh (StrandFrame.work scheduler.depth) stack <
        weigh (StrandFrame.work scheduler.depth) (s.stack t) := by
  have hcaller := h.caller t
  unfold InlineStrand.run at hs
  split at hs <;> rename_i ht
  case h_1 => cases hs
  case h_2 wrapper k item next frames =>
    cases hs
    rw [ht] at hcaller
    refine ⟨h.call hserial item (fun f hf => ?_) ?_ (fun j => ?_) fun j => ?_, _, rfl, ?_⟩
    · rcases List.mem_cons.mp hf with rfl | hf
      · cases wrapper <;> exact hcaller (.originalFunction _ k (.enqueueItem item next))
          List.mem_cons_self
      · exact hcaller f (List.mem_cons_of_mem _ hf)
    · rw [ht]
      simp [StrandFrame.running]
    · rw [ht]
      simp [StrandFrame.pending]
    · rw [ht]
      simp [StrandFrame.runs]
    · rw [ht]
      simp [StrandFrame.work, StrandItem.size, InlineScheduler.depth]
      omega
  case h_3 k frames =>
    cases hs
    refine ⟨h.finish ht, _, rfl, ?_⟩
    rw [ht]
    simp [StrandFrame.work, StrandItem.size]
  case h_5 serialized k item frames =>
    split_ifs at hs with hbegin
    cases hs
    refine ⟨h.start ht (hbegins.serialized s t hbegin), _, rfl, ?_⟩
    rw [ht]
    simp [StrandFrame.work, InlineScheduler.depth]
  case h_6 inner k item frames =>
    obtain ⟨j, hj, -⟩ := hcaller _ (by rw [ht]; exact List.mem_cons_self)
    have hinner : inner.isMethodInvocationSerialized = true := by
      have hbottom := (StrandFrame.serialCall_enqueueItem hj).1
      cases inner with
      | direct serialized => exact hbottom
      | strand inner => rfl
    rw [if_pos hinner] at hs
    cases hs
    refine ⟨h.pass ht, _, rfl, ?_⟩
    rw [ht]
    simp [StrandFrame.work, InlineScheduler.depth]
  all_goals
    obtain ⟨j, hj, -⟩ := hcaller _ (by rw [ht]; exact List.mem_cons_self)
    cases hj

theorem step (h : SerialInv s) (hserial : scheduler.bottomSerialized = true)
    (hbegins : RunsInTurn begins) {a : InlineLabel T} (hs : s.step scheduler begins a = some s') :
    SerialInv s' := by
  cases a with
  | run t => exact (h.run hserial hbegins hs).1
  | enqueueItem t item =>
    simp only [InlineStrand.step] at hs
    split_ifs at hs with ht
    cases hs
    refine h.call hserial item (fun f hf => by cases hf) ?_ (fun j => ?_) fun j => ?_ <;> rw [ht]

/-- Some thread can go on: the one that runs an original function, or one where there is
    none. -/
theorem goesOn (h : SerialInv s) (hbegins : RunsInTurn begins) (ht : ∃ t, s.stack t ≠ []) :
    ∃ t, (s.run scheduler begins t).isSome := by
  -- a thread in a call goes on, or waits for the scheduler below the strands
  have hgo : ∀ t, s.stack t ≠ [] → (s.run scheduler begins t).isSome ∨ s.Waiting t := by
    intro t hne
    obtain ⟨f, frames, hst⟩ := List.exists_cons_of_ne_nil hne
    obtain ⟨k, hk, -⟩ := h.caller t f (by rw [hst]; exact List.mem_cons_self)
    cases f with
    | originalFunction wrapper j rest =>
      cases wrapper with
      | some inner => cases hk
      | none => cases rest <;> exact .inl (by simp [InlineStrand.run, hst])
    | enqueueItem inner j item =>
      cases inner with
      | direct serialized => exact .inr ⟨serialized, j, item, frames, hst⟩
      | strand inner =>
        left
        simp only [InlineStrand.run, hst, h.mutex inner, Option.isNone_none, if_true]
        split_ifs <;> rfl
    | _ => cases hk
  have hserve : ∀ t, s.stack t ≠ [] → s.OthersIdle t →
      ∃ u, (s.run scheduler begins u).isSome := by
    intro t hne hidle
    rcases hgo t hne with hrun | hwait
    · exact ⟨t, hrun⟩
    · obtain ⟨u, ⟨serialized, k, item, frames, hst⟩, hbegin⟩ := hbegins.serves s t hwait hidle
      exact ⟨u, by simp [InlineStrand.run, hst, hbegin]⟩
  by_cases hrun : ∃ u, weigh StrandFrame.running (s.stack u) ≠ 0
  · obtain ⟨u, hu⟩ := hrun
    refine hserve u (by rintro hnil; simp [hnil] at hu) fun v hv => ?_
    by_contra hne
    exact hv (h.oneThread v u hne hu)
  · push Not at hrun
    obtain ⟨t, hne⟩ := ht
    exact hserve t hne fun u _ => hrun u

end SerialInv

variable [DecidableEq T]

theorem reachable_serialInv (hserial : scheduler.bottomSerialized = true)
    (hbegins : RunsInTurn begins) {s : InlineStrand T}
    (h : (inlineMachine scheduler begins).Reachable (Enqueues items) s) : SerialInv s := by
  refine h.invariant ?_ fun s a s' hi _ hs => hi.step hserial hbegins hs
  exact ⟨fun _ => rfl, nofun, fun _ _ hu => absurd rfl hu, nofun, nofun, rfl,
    fun _ _ => ⟨rfl, rfl⟩⟩

theorem callsReturn_of_serialized [Fintype T] (hserial : scheduler.bottomSerialized = true)
    (hbegins : RunsInTurn begins) : CallsReturn scheduler begins items where
  noRelock s h t := by
    rintro ⟨inner, hlock⟩
    rw [(reachable_serialInv hserial hbegins h).mutex] at hlock
    exact not_selfLock_of_free hlock
  once s h k := by
    have hi := reachable_serialInv hserial hbegins h
    cases hk : s.callers[k]? with
    | none =>
      have := (hi.fresh k (List.getElem?_eq_none_iff.mp hk)).1
      omega
    | some t =>
      have := hi.once k t hk
      omega
  done s h t ht k hk := (reachable_serialInv hserial hbegins h).done ht hk
  goesOn s h ht := (reachable_serialInv hserial hbegins h).goesOn hbegins ht
  ends := by
    refine ⟨fun s => tally (weigh (StrandFrame.work scheduler.depth)) s.stack,
      fun s t s' h hs => ?_⟩
    obtain ⟨-, stack, hstack, hlt⟩ := (reachable_serialInv hserial hbegins h).run hserial hbegins hs
    simp only [hstack]
    exact tally_weigh_lt hlt

/-! ## Items that enqueue nothing -/

/-- Every thread is outside of any call, or in the one call of an item that enqueues nothing. -/
def LeafInv (s : InlineStrand T) : Prop :=
  ∀ t, s.stack t = [] ∨ ∃ k, (∃ inner : InlineScheduler, inner.bottomSerialized = true ∧
    s.stack t = [.enqueueItem inner k .done]) ∨ s.stack t = [.originalFunction none k .done]

theorem LeafInv.step {s s' : InlineStrand T} {a : InlineLabel T} (h : LeafInv s)
    (hserial : scheduler.bottomSerialized = true) (hg : Enqueues (· = .done) s a)
    (hs : s.step scheduler begins a = some s') : LeafInv s' := by
  have hupdate : ∀ {t : T} {frames : List StrandFrame},
      (frames = [] ∨ ∃ k, (∃ inner : InlineScheduler, inner.bottomSerialized = true ∧
        frames = [.enqueueItem inner k .done]) ∨ frames = [.originalFunction none k .done]) →
      LeafInv (s.goto t frames) := by
    intro t frames hf u
    by_cases hu : u = t
    · subst hu
      simpa only [InlineStrand.goto, Function.update_self] using hf
    · simpa only [InlineStrand.goto, Function.update_of_ne hu] using h u
  cases a with
  | enqueueItem t item =>
    obtain rfl := hg t item rfl
    simp only [InlineStrand.step] at hs
    split_ifs at hs
    cases hs
    exact hupdate (.inr ⟨_, .inl ⟨.strand scheduler, hserial, rfl⟩⟩)
  | run t =>
    simp only [InlineStrand.step, InlineStrand.run] at hs
    rcases h t with ht | ⟨k, ⟨inner, hinner, ht⟩ | ht⟩ <;> rw [ht] at hs
    · cases hs
    · cases inner with
      | direct serialized =>
        simp only at hs
        split_ifs at hs
        cases hs
        exact hupdate (.inr ⟨k, .inr rfl⟩)
      | strand inner =>
        have hpass : inner.isMethodInvocationSerialized = true := by
          cases inner with
          | direct serialized => exact hinner
          | strand inner => rfl
        simp only [if_pos hpass] at hs
        cases hs
        exact hupdate (.inr ⟨k, .inl ⟨inner, hinner, rfl⟩⟩)
    · cases hs
      exact hupdate (.inl rfl)

theorem neverOverlapping_of_leaf [Fintype T] (hserial : scheduler.bottomSerialized = true)
    (hbegins : RunsInTurn begins) : NeverOverlapping scheduler begins (· = .done) := by
  intro s h
  have hi := reachable_serialInv hserial hbegins h
  have hleaf : LeafInv s :=
    h.invariant (fun _ => .inl rfl) fun _ _ _ hl hg hs => hl.step hserial hg hs
  refine tally_weigh_le_one (fun t => ?_) hi.oneThread
  rcases hleaf t with ht | ⟨k, ⟨inner, -, ht⟩ | ht⟩ <;> simp [ht, StrandFrame.running]

/-! ## Runs of one thread -/

section OneThread

/-- The steps of the threads themselves. -/
def OnlyRuns (_ : InlineStrand T) (a : InlineLabel T) : Prop := ∃ t, a = .run t

omit [DecidableEq T] in
theorem enqueues_of_onlyRuns {s : InlineStrand T} {a : InlineLabel T} (h : OnlyRuns s a) :
    Enqueues items s a := by
  obtain ⟨t, rfl⟩ := h
  exact fun _ _ ha => by cases ha

variable {s : InlineStrand T} {t : T}

theorem reaches_run {s' s'' : InlineStrand T}
    (h : (inlineMachine scheduler begins).Reaches OnlyRuns s s')
    (hs : s'.run scheduler begins t = some s'') :
    (inlineMachine scheduler begins).Reaches OnlyRuns s s'' :=
  h.tail (a := .run t) ⟨t, rfl⟩ hs

/-- The strands above the last one hand an item on. -/
theorem reaches_lowest {inner : InlineScheduler} {k : ℕ} {item : StrandItem}
    {frames : List StrandFrame} (ht : s.stack t = .enqueueItem (.strand inner) k item :: frames) :
    (inlineMachine scheduler begins).Reaches OnlyRuns s
      (s.goto t (.enqueueItem (.strand (.direct inner.bottomSerialized)) k item :: frames)) := by
  induction inner generalizing s with
  | direct serialized =>
    have hself : s.goto t (.enqueueItem (.strand (.direct serialized)) k item :: frames) = s := by
      rw [← ht, InlineStrand.goto, Function.update_eq_self]
    exact hself.symm ▸ .refl
  | strand inner ih =>
    have hstep : s.run scheduler begins t =
        some (s.goto t (.enqueueItem (.strand inner) k item :: frames)) := by
      simp only [InlineStrand.run, ht, InlineScheduler.isMethodInvocationSerialized, if_true]
    have hnext := ih (s := s.goto t (.enqueueItem (.strand inner) k item :: frames))
      (Function.update_self ..)
    simp only [InlineStrand.goto, Function.update_idem] at hnext
    exact .head (a := .run t) hstep ⟨t, rfl⟩ hnext

/-- Over a serialized scheduler the original function of the only thread in a call begins. -/
theorem reaches_begin (hserial : scheduler.bottomSerialized = true)
    (hbegins : RunsInTurn begins) (halone : ∀ u, u ≠ t → s.stack u = []) {k : ℕ}
    {item : StrandItem} {frames : List StrandFrame}
    (ht : s.stack t = .enqueueItem (.strand scheduler) k item :: frames) :
    (inlineMachine scheduler begins).Reaches OnlyRuns s (s.start t none k item frames) := by
  let s₁ := s.goto t (.enqueueItem (.strand (.direct true)) k item :: frames)
  let s₂ := s.goto t (.enqueueItem (.direct true) k item :: frames)
  have hlow : (inlineMachine scheduler begins).Reaches OnlyRuns s s₁ := by
    have hlow : (inlineMachine scheduler begins).Reaches OnlyRuns s _ := reaches_lowest ht
    rwa [hserial] at hlow
  have hpass : s₁.run scheduler begins t = some s₂ := by
    have hst : s₁.stack t = .enqueueItem (.strand (.direct true)) k item :: frames :=
      Function.update_self ..
    simp only [InlineStrand.run, hst, InlineScheduler.isMethodInvocationSerialized, if_true]
    simp only [InlineStrand.goto, Function.update_idem, s₁, s₂]
  have hst : s₂.stack t = .enqueueItem (.direct true) k item :: frames := Function.update_self ..
  have hnone : ∀ u, u ≠ t → s₂.stack u = [] := fun u hu =>
    (Function.update_of_ne hu ..).trans (halone u hu)
  have hbegin : begins s₂ t = true := by
    obtain ⟨u, ⟨serialized, j, i, rest, hu⟩, hb⟩ := hbegins.serves s₂ t ⟨true, k, item, frames, hst⟩
      fun u hu => by rw [hnone u hu, weigh_nil]
    by_cases hut : u = t
    · exact hut ▸ hb
    · cases (hnone u hut).symm.trans hu
  have hstart : s₂.run scheduler begins t = some (s.start t none k item frames) := by
    simp only [InlineStrand.run, hst, hbegin, if_true]
    simp only [InlineStrand.start, InlineStrand.goto, Function.update_idem, s₂]
  exact reaches_run (reaches_run hlow hpass) hstart

theorem first_call (t : T) (item : StrandItem) :
    (inlineMachine scheduler begins).step {} (.enqueueItem t item) =
      some (InlineStrand.call scheduler {} t item []) := by
  simp [inlineMachine, InlineStrand.step]

theorem reachable_first {item : StrandItem} (hitem : items item) (t : T) :
    (inlineMachine scheduler begins).Reachable (Enqueues items)
      (InlineStrand.call scheduler {} t item []) := by
  refine .single (a := .enqueueItem t item) ?_ (first_call t item)
  rintro u i ⟨⟩
  exact hitem

end OneThread

/-- An item that enqueues another one, which runs inside it. -/
theorem not_neverOverlapping [Fintype T] (hserial : scheduler.bottomSerialized = true)
    (hbegins : RunsInTurn begins) {item next : StrandItem}
    (hitem : items (.enqueueItem item next)) (t : T) :
    ¬ NeverOverlapping scheduler begins items := by
  intro hover
  let s₁ : InlineStrand T := InlineStrand.call scheduler {} t (.enqueueItem item next) []
  let s₂ := s₁.start t none 0 (.enqueueItem item next) []
  let s₃ := s₂.call scheduler t item [.originalFunction none 0 next]
  let s₄ := s₃.start t none 1 item [.originalFunction none 0 next]
  have halone : ∀ u, u ≠ t → s₁.stack u = [] ∧ s₃.stack u = [] := fun u hu => by
    simp [s₃, s₂, s₁, InlineStrand.call, Function.update_of_ne hu]
  have h₂ : (inlineMachine scheduler begins).Reaches OnlyRuns s₁ s₂ :=
    reaches_begin hserial hbegins (fun u hu => (halone u hu).1) (Function.update_self ..)
  have h₃ : s₂.run scheduler begins t = some s₃ := by
    have hst : s₂.stack t = [.originalFunction none 0 (.enqueueItem item next)] :=
      Function.update_self ..
    simp only [InlineStrand.run, hst, s₃]
  have h₄ : (inlineMachine scheduler begins).Reaches OnlyRuns s₃ s₄ :=
    reaches_begin hserial hbegins (fun u hu => (halone u hu).2) (Function.update_self ..)
  have hr : (inlineMachine scheduler begins).Reachable (Enqueues items) s₄ :=
    (reachable_first hitem t).trans
      (((reaches_run h₂ h₃).trans h₄).mono fun _ _ => enqueues_of_onlyRuns)
  have hle := hover s₄ hr
  have hself := le_tally (weigh StrandFrame.running) s₄.stack t
  rw [show s₄.stack t = [.originalFunction none 1 item, .originalFunction none 0 next] from
    Function.update_self ..] at hself
  simp only [weigh_cons, weigh_nil, StrandFrame.running] at hself
  omega

/-! ## A scheduler below the strands that is not serialized -/

/-- Whatever item is enqueued first, its thread locks the `_queueMutex` of the last strand a
    second time. -/
theorem exists_relocks (hserial : scheduler.bottomSerialized = false) {item : StrandItem}
    (hitem : items item) (t : T) :
    ∃ s, (inlineMachine scheduler begins).Reachable (Enqueues items) s ∧ s.Relocks t := by
  let s₁ : InlineStrand T := InlineStrand.call scheduler {} t item []
  let s₂ := s₁.goto t [.enqueueItem (.strand .currentThread) 0 item]
  let s₃ := (s₂.goto t [.tryRunItem .currentThread (.onEnqueueItem 0) 0 item]).setStrand
    .currentThread { queueMutex := some t }
  let s₄ := (s₃.start t (some .currentThread) 0 item
    [.unlock .currentThread (.onEnqueueItem 0)]).setStrand .currentThread
      { queueMutex := some t, operationInProgress := true }
  have h₂ : (inlineMachine scheduler begins).Reaches OnlyRuns s₁ s₂ := by
    have hst : s₁.stack t = [.enqueueItem (.strand scheduler) 0 item] := Function.update_self ..
    have hlow : (inlineMachine scheduler begins).Reaches OnlyRuns s₁ _ := reaches_lowest hst
    rwa [hserial] at hlow
  have h₃ : s₂.run scheduler begins t = some s₃ := by
    have hst : s₂.stack t = [.enqueueItem (.strand .currentThread) 0 item] :=
      Function.update_self ..
    simp only [InlineStrand.run, hst]
    rfl
  have h₄ : s₃.run scheduler begins t = some s₄ := by
    have hst : s₃.stack t = [.tryRunItem .currentThread (.onEnqueueItem 0) 0 item] :=
      Function.update_self ..
    have hstrand : s₃.strand .currentThread = { queueMutex := some t } := by simp [s₃]
    simp only [InlineStrand.run, hst, hstrand, Bool.false_eq_true, if_false, s₄]
  have hr : (inlineMachine scheduler begins).Reaches OnlyRuns s₁ s₄ :=
    reaches_run (reaches_run h₂ h₃) h₄
  have hstack₄ : s₄.stack t = [.originalFunction (some .currentThread) 0 item,
      .unlock .currentThread (.onEnqueueItem 0)] := Function.update_self ..
  have hmutex₄ : (s₄.strand .currentThread).queueMutex = some t := by simp [s₄]
  cases item with
  | done =>
    -- the wrapper comes to `markStrandOperationAsDone`
    have h₅ : s₄.run scheduler begins t =
        some { s₄.goto t [.markStrandOperationAsDone .currentThread 0,
          .unlock .currentThread (.onEnqueueItem 0)] with finished := s₄.finished ++ [0] } := by
      simp only [InlineStrand.run, hstack₄]
    refine ⟨_, (reachable_first hitem t).trans
      ((reaches_run hr h₅).mono fun _ _ => enqueues_of_onlyRuns),
      .currentThread, hmutex₄, _, _, Function.update_self .., ?_⟩
    rfl
  | enqueueItem item next =>
    -- the item comes to `OnEnqueueItem` of the last strand
    let s₅ := s₄.call scheduler t item
      [.originalFunction (some .currentThread) 0 next, .unlock .currentThread (.onEnqueueItem 0)]
    have h₅ : s₄.run scheduler begins t = some s₅ := by
      simp only [InlineStrand.run, hstack₄, s₅]
    have h₆ : (inlineMachine scheduler begins).Reaches OnlyRuns s₅ _ :=
      reaches_lowest (Function.update_self ..)
    rw [hserial] at h₆
    refine ⟨_, (reachable_first hitem t).trans
      (((reaches_run hr h₅).trans h₆).mono fun _ _ => enqueues_of_onlyRuns),
      .currentThread, hmutex₄, _, _, Function.update_self .., ?_⟩
    rfl

/-- Nothing happens where nothing is enqueued. -/
theorem eq_init_of_no_items (hno : ∀ item, ¬ items item) {s : InlineStrand T}
    (h : (inlineMachine scheduler begins).Reachable (Enqueues items) s) : s = {} := by
  refine h.invariant (I := (· = {})) rfl fun s a s' hi hg hs => ?_
  subst hi
  cases a with
  | enqueueItem t item => exact absurd (hg t item rfl) (hno item)
  | run t => cases hs

theorem callsReturn_of_no_items (hno : ∀ item, ¬ items item) :
    CallsReturn scheduler begins items where
  noRelock s h t := by
    rw [eq_init_of_no_items hno h]
    rintro ⟨inner, hlock⟩
    exact not_selfLock_of_free hlock
  once s h k := by
    rw [eq_init_of_no_items hno h]
    exact Nat.zero_le 1
  done s h t ht k hk := by
    rw [eq_init_of_no_items hno h] at hk
    cases hk
  goesOn s h ht := by
    rw [eq_init_of_no_items hno h] at ht
    obtain ⟨t, ht⟩ := ht
    exact absurd rfl ht
  ends := ⟨fun _ => 0, fun s t s' h hs => by
    rw [eq_init_of_no_items hno h] at hs
    cases hs⟩

/-! ## Exactly when -/

/-- A strand over an inline scheduler, with any number of threads that enqueue items of `items`
    any number of times. Every call returns with its items run once and no thread locks a
    `_queueMutex` twice, if and only if the scheduler below all strands is serialized. The
    items never overlap either, if and only if moreover they enqueue nothing. -/
theorem inline_strand_iff [Fintype T] [Inhabited T] (hbegins : RunsInTurn begins) :
    (CallsReturn scheduler begins items ↔
      ∀ item, items item → scheduler.bottomSerialized = true) ∧
    (CallsReturn scheduler begins items ∧ NeverOverlapping scheduler begins items ↔
      ∀ item, items item → scheduler.bottomSerialized = true ∧ item = .done) := by
  have hserialized : CallsReturn scheduler begins items →
      ∀ item, items item → scheduler.bottomSerialized = true := by
    intro hcalls item hitem
    by_contra hne
    obtain ⟨s, hr, hrelocks⟩ := exists_relocks (Bool.not_eq_true _ ▸ hne) hitem (default : T)
    exact hcalls.noRelock s hr default hrelocks
  have hcalls : (∀ item, items item → scheduler.bottomSerialized = true) →
      CallsReturn scheduler begins items := by
    intro h
    by_cases hsome : ∃ item, items item
    · obtain ⟨item, hitem⟩ := hsome
      exact callsReturn_of_serialized (h item hitem) hbegins
    · exact callsReturn_of_no_items (not_exists.mp hsome)
  refine ⟨⟨hserialized, hcalls⟩, fun ⟨hreturn, hover⟩ item hitem => ?_, fun h => ?_⟩
  · have hserial := hserialized hreturn item hitem
    cases item with
    | done => exact ⟨hserial, rfl⟩
    | enqueueItem item next =>
      exact absurd hover (not_neverOverlapping hserial hbegins hitem default)
  · refine ⟨hcalls fun item hitem => (h item hitem).1, fun s hr => ?_⟩
    by_cases hsome : ∃ item, items item
    · obtain ⟨item, hitem⟩ := hsome
      exact neverOverlapping_of_leaf (h item hitem).1 hbegins s
        (hr.mono fun _ _ hg t i ha => (h i (hg t i ha)).2)
    · rw [eq_init_of_no_items (not_exists.mp hsome) hr]
      simp [tally]

/-- An item begins whenever no other thread runs one. -/
def beginsAtOnce [Fintype T] (s : InlineStrand T) (t : T) : Bool := s.OthersIdle t

theorem runsInTurn_beginsAtOnce [Fintype T] : RunsInTurn (beginsAtOnce (T := T)) where
  serialized _ _ h := of_decide_eq_true h
  serves _ t hwait hidle := ⟨t, hwait, decide_eq_true hidle⟩

/-- A strand over a strand over a serialized scheduler, and one over a strand over
    `CurrentThreadScheduler`. -/
theorem inline_strand_iff_nested :
    CallsReturn (.strand (.direct true)) (beginsAtOnce (T := Bool)) (fun _ => True) ∧
    ¬ CallsReturn (.strand .currentThread) (beginsAtOnce (T := Bool)) fun _ => True :=
  ⟨(inline_strand_iff runsInTurn_beginsAtOnce).1.mpr fun _ _ => rfl,
    fun h => by cases (inline_strand_iff runsInTurn_beginsAtOnce).1.mp h .done trivial⟩

/-- `CurrentThreadScheduler` below the strand: the first item, which enqueues nothing, runs
    inside `OnEnqueueItem` and locks `_queueMutex` a second time; nothing can go on. -/
theorem not_inline_strand :
    ∃ s : InlineStrand Unit, (inlineMachine .currentThread fun _ _ => true).Reachable
        (Enqueues (· = .done)) s ∧
      s.Relocks () ∧ s.returned = [] ∧ ∀ t, s.run .currentThread (fun _ _ => true) t = none := by
  have hr : (inlineMachine .currentThread fun (_ : InlineStrand Unit) _ => true).Reachable
      (Enqueues (· = .done)) _ :=
    .head (a := .enqueueItem () .done) rfl (by rintro _ _ ⟨⟩; rfl) <|
    .head (a := .run ()) rfl (by rintro _ _ ⟨⟩) <| .head (a := .run ()) rfl (by rintro _ _ ⟨⟩) <|
    .head (a := .run ()) rfl (by rintro _ _ ⟨⟩) .refl
  exact ⟨_, hr, ⟨.currentThread, rfl, _, _, rfl, rfl⟩, rfl, fun _ => rfl⟩

end AsyncCpp.Schedulers
