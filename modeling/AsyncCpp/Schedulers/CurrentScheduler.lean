import Mathlib.Logic.Function.Basic
import AsyncCpp.Lib.Machine

/-!
# `Scheduler::CurrentScheduler`

Model of Schedulers/Scheduler.h:63-74 with the schedulers of the library. `EnqueueItem` hands
the item over in a function that sets the `thread_local` `_currentScheduler`, runs the item and
resets it; `EnqueueItem` itself resets it as well when it is left. Both reset it to null and
not to what it was.

A thread is the stack of what it is inside of. Items are code that calls `EnqueueItem` and may
throw; what runs an item inline, hands it over to a queue or parks it in a strand is what the
schedulers do.

Results:
* `current_scheduler_iff`: at every point of an item `CurrentScheduler()` is its scheduler
  exactly where the item has called no `EnqueueItem` before, and an `EnqueueItem` leaves
  `CurrentScheduler()` as it was exactly where that was null.
* `not_current_scheduler`: an item that calls `EnqueueItem`.
-/

namespace AsyncCpp.Schedulers

open Interleaving

/-- The schedulers; `id` tells the objects of a class apart. What is posted to a context is run
    at once by the default context, and later where `deferred`. -/
inductive Scheduler (Id : Type*) where
  | currentThread (id : Id)
  | threadPool (id : Id) (numberOfThreads : ℕ)
  | synchronizationContext (id : Id) (deferred : Bool)
  | strand (id : Id) (scheduler : Scheduler Id)
  deriving DecidableEq

/-- What a function that is enqueued does: it returns, throws, or calls `EnqueueItem` of a
    scheduler and goes on; where the call is `caught`, also when it throws. -/
inductive ItemCode (Id : Type*) where
  | done
  | throw
  | enqueueItem (scheduler : Scheduler Id) (item : ItemCode Id) (caught : Bool) (k : ItemCode Id)

/-- The functions `OnEnqueueItem` gets: an item, the function `EnqueueItem` makes of one, and
    what `wrapFunctionInStrand` makes of that, for the strand `id` over `scheduler`. -/
inductive ItemFunction (Id : Type*) where
  | item (code : ItemCode Id)
  | setsCurrent (scheduler : Scheduler Id) (originalFunction : ItemFunction Id)
  | inStrand (id : Id) (scheduler : Scheduler Id) (originalFunction : ItemFunction Id)

/-- What a thread is inside of. -/
inductive Frame (Id : Type*) where
  /-- Code of an item of the scheduler `owner`, or of the thread itself. `called` is history:
      it has called `EnqueueItem`. -/
  | code (owner : Option (Scheduler Id)) (called : Bool) (code : ItemCode Id)
  /-- The same, inside that call. -/
  | calling (owner : Option (Scheduler Id)) (caught : Bool) (k : ItemCode Id)
  /-- `EnqueueItem` after its `OnEnqueueItem`. `before` is history: what `CurrentScheduler()`
      was. -/
  | enqueueItem (before : Option (Scheduler Id))
  | onEnqueueItem (scheduler : Scheduler Id) (originalFunction : ItemFunction Id)
  /-- The function of `setsCurrent` after its `originalFunction`. -/
  | setsCurrent
  | markStrandOperationAsDone (id : Id) (scheduler : Scheduler Id)
  /-- The `lock_guard` of a strand. -/
  | unlock (strand : Scheduler Id)

structure SchedulerThread (Id : Type*) where
  stack : List (Frame Id) := []
  currentScheduler : Option (Scheduler Id) := none
  throwing : Bool := false

/-- The data members of `StrandSchedulerDecorator`. -/
structure StrandState (Id : Type*) where
  queueMutex : Bool := false
  operationInProgress : Bool := false
  strandQueue : List (ItemFunction Id) := []

/-- `deferred` are the queues of the thread pools and of the contexts that run things later.
    `returned` is history: what `CurrentScheduler()` was before each `EnqueueItem` and after. -/
structure SchedulerSystem (T Id : Type*) where
  thread : T → SchedulerThread Id := fun _ => {}
  deferred : Scheduler Id → List (ItemFunction Id) := fun _ => []
  strand : Scheduler Id → StrandState Id := fun _ => {}
  returned : List (Option (Scheduler Id) × Option (Scheduler Id)) := []

inductive SchedulerLabel (T Id : Type*) where
  /-- Thread `t` begins to run code of its own. -/
  | begin (t : T) (code : ItemCode Id)
  /-- Thread `t` takes the first function of a queue. -/
  | take (t : T) (scheduler : Scheduler Id)
  /-- Thread `t` goes on. -/
  | run (t : T)

variable {T Id : Type*}

/-- `IsMethodInvocationSerialized`. -/
def Scheduler.isMethodInvocationSerialized : Scheduler Id → Bool
  | .currentThread _ | .synchronizationContext _ _ => false
  | .threadPool _ numberOfThreads => numberOfThreads = 1
  | .strand _ _ => true

namespace SchedulerThread

/-- `EnqueueItem` up to its `OnEnqueueItem` (Scheduler.h:64-73). -/
def enqueueItem (th : SchedulerThread Id) (scheduler : Scheduler Id)
    (originalFunction : ItemFunction Id) : SchedulerThread Id :=
  { th with
    stack := .onEnqueueItem scheduler (.setsCurrent scheduler originalFunction) ::
      .enqueueItem th.currentScheduler :: th.stack }

/-- The thread calls a function, which runs up to the first code of an item. -/
def invoke (owner : Option (Scheduler Id)) : ItemFunction Id → SchedulerThread Id →
    SchedulerThread Id
  | .item code, th => { th with stack := .code owner false code :: th.stack }
  | .setsCurrent scheduler f, th =>
    invoke (some scheduler) f
      { th with stack := .setsCurrent :: th.stack, currentScheduler := some scheduler }
  | .inStrand id scheduler f, th =>
    invoke owner f { th with stack := .markStrandOperationAsDone id scheduler :: th.stack }

end SchedulerThread

namespace SchedulerSystem

variable [DecidableEq T] [DecidableEq Id]

@[simp] def setThread (s : SchedulerSystem T Id) (t : T) (th : SchedulerThread Id) :
    SchedulerSystem T Id :=
  { s with thread := Function.update s.thread t th }

def setStrand (s : SchedulerSystem T Id) (strand : Scheduler Id) (st : StrandState Id) :
    SchedulerSystem T Id :=
  { s with strand := Function.update s.strand strand st }

/-- `tryRunItem` of the strand `id` over `scheduler`, whose state is `st`
    (StrandSchedulerDecorator.cpp:82-92), by thread `t`. -/
def tryRunItem (s : SchedulerSystem T Id) (t : T) (th : SchedulerThread Id) (id : Id)
    (scheduler : Scheduler Id) (st : StrandState Id) (f : ItemFunction Id) :
    SchedulerSystem T Id :=
  if st.operationInProgress then
    (s.setThread t th).setStrand (.strand id scheduler)
      { st with strandQueue := st.strandQueue ++ [f] }
  else
    (s.setThread t (th.enqueueItem scheduler f)).setStrand (.strand id scheduler)
      { st with operationInProgress := true }

/-- `OnEnqueueItem` of the scheduler, called by thread `t`. -/
def onEnqueueItem (s : SchedulerSystem T Id) (t : T) (th : SchedulerThread Id)
    (f : ItemFunction Id) : Scheduler Id → Option (SchedulerSystem T Id)
  | .currentThread _ | .synchronizationContext _ false => some (s.setThread t (th.invoke none f))
  | .threadPool id numberOfThreads =>
    some { s.setThread t th with
      deferred := Function.update s.deferred (.threadPool id numberOfThreads)
        (s.deferred (.threadPool id numberOfThreads) ++ [f]) }
  | .synchronizationContext id true =>
    some { s.setThread t th with
      deferred := Function.update s.deferred (.synchronizationContext id true)
        (s.deferred (.synchronizationContext id true) ++ [f]) }
  | .strand id scheduler =>
    if scheduler.isMethodInvocationSerialized then
      some (s.setThread t (th.enqueueItem scheduler f))
    else if (s.strand (.strand id scheduler)).queueMutex then none
    else
      some (s.tryRunItem t { th with stack := .unlock (.strand id scheduler) :: th.stack } id
        scheduler { s.strand (.strand id scheduler) with queueMutex := true }
        (.inStrand id scheduler f))

/-- `markStrandOperationAsDone` and `tryDequeItem` (StrandSchedulerDecorator.cpp:63-80). -/
def markStrandOperationAsDone (s : SchedulerSystem T Id) (t : T) (th : SchedulerThread Id)
    (id : Id) (scheduler : Scheduler Id) : Option (SchedulerSystem T Id) :=
  let st := s.strand (.strand id scheduler)
  let th := { th with stack := .unlock (.strand id scheduler) :: th.stack }
  if st.queueMutex then none
  else
    let st := { st with queueMutex := true, operationInProgress := false }
    match st.strandQueue with
    | [] => some ((s.setThread t th).setStrand (.strand id scheduler) st)
    | f :: strandQueue =>
      some (s.tryRunItem t th id scheduler { st with strandQueue := strandQueue } f)

/-- Thread `t` goes on. An exception leaves the frames that have no handler; the worker of a
    pool catches it at the bottom of its stack. -/
def run (s : SchedulerSystem T Id) (t : T) : Option (SchedulerSystem T Id) :=
  let th := s.thread t
  match th.stack with
  | [] => if th.throwing then some (s.setThread t { th with throwing := false }) else none
  | .code _ _ .done :: stack => some (s.setThread t { th with stack := stack })
  | .code _ _ .throw :: stack => some (s.setThread t { th with stack := stack, throwing := true })
  | .code owner _ (.enqueueItem scheduler item caught k) :: stack =>
    some (s.setThread t
      (SchedulerThread.enqueueItem { th with stack := .calling owner caught k :: stack } scheduler
        (.item item)))
  | .calling owner caught k :: stack =>
    if th.throwing && !caught then some (s.setThread t { th with stack := stack })
    else some (s.setThread t { th with stack := .code owner true k :: stack, throwing := false })
  | .enqueueItem before :: stack =>
    some { s.setThread t { th with stack := stack, currentScheduler := none } with
      returned := s.returned ++ [(before, none)] }
  | .onEnqueueItem scheduler f :: stack => s.onEnqueueItem t { th with stack := stack } f scheduler
  | .setsCurrent :: stack =>
    some (s.setThread t { th with stack := stack, currentScheduler := none })
  | .markStrandOperationAsDone id scheduler :: stack =>
    if th.throwing then some (s.setThread t { th with stack := stack })
    else s.markStrandOperationAsDone t { th with stack := stack } id scheduler
  | .unlock strand :: stack =>
    some ((s.setThread t { th with stack := stack }).setStrand strand
      { s.strand strand with queueMutex := false })

def step (s : SchedulerSystem T Id) : SchedulerLabel T Id → Option (SchedulerSystem T Id)
  | .begin t code =>
    match (s.thread t).stack, (s.thread t).throwing with
    | [], false => some (s.setThread t ((s.thread t).invoke none (.item code)))
    | _, _ => none
  | .take t scheduler =>
    match (s.thread t).stack, (s.thread t).throwing, s.deferred scheduler with
    | [], false, f :: deferred =>
      some { s.setThread t ((s.thread t).invoke none f) with
        deferred := Function.update s.deferred scheduler deferred }
    | _, _, _ => none
  | .run t => s.run t

end SchedulerSystem

/-- Threads at rest, schedulers without items. -/
def schedulerMachine (T Id : Type*) [DecidableEq T] [DecidableEq Id] :
    Machine (SchedulerSystem T Id) (SchedulerLabel T Id) where
  init := {}
  step := SchedulerSystem.step

/-! ## What the stack of a thread promises -/

/-- At every point of an item `CurrentScheduler()` is its scheduler, and every `EnqueueItem`
    left it as it was. -/
structure StackDiscipline (s : SchedulerSystem T Id) : Prop where
  item : ∀ t scheduler called code stack,
    (s.thread t).stack = .code (some scheduler) called code :: stack →
      (s.thread t).currentScheduler = some scheduler
  restored : ∀ r ∈ s.returned, r.2 = r.1

/-- No item that is running has called `EnqueueItem`, and every `EnqueueItem` that is over was
    called where `CurrentScheduler()` was null. -/
structure NotNested (s : SchedulerSystem T Id) : Prop where
  item : ∀ t scheduler called code stack,
    (s.thread t).stack = .code (some scheduler) called code :: stack → called = false
  call : ∀ r ∈ s.returned, r.1 = none

/-- The function sets `_currentScheduler` and resets it. -/
def ItemFunction.Resets : ItemFunction Id → Prop
  | .item _ => False
  | .setsCurrent _ (.item _) => True
  | .setsCurrent _ f => f.Resets
  | .inStrand _ _ f => f.Resets

/-- `CurrentScheduler()` of a thread with this stack, which is `current`, and what it will be
    as the frames are left. -/
def StackOk (current : Option (Scheduler Id)) : List (Frame Id) → Prop
  | [] => current = none
  | .code owner called _ :: stack =>
    current = (if called then none else owner) ∧ StackOk current stack ∧ StackOk none stack
  | .calling _ _ _ :: stack => current = none ∧ StackOk none stack
  | .enqueueItem _ :: stack | .setsCurrent :: stack => StackOk none stack
  | .onEnqueueItem _ f :: stack => f.Resets ∧ StackOk current stack ∧ StackOk none stack
  | .markStrandOperationAsDone _ _ :: stack => current = none ∧ StackOk none stack
  | .unlock _ :: stack => StackOk current stack

theorem ItemFunction.Resets.setsCurrent {f : ItemFunction Id} (h : f.Resets)
    (scheduler : Scheduler Id) : (ItemFunction.setsCurrent scheduler f).Resets := by
  cases f with
  | item => exact h.elim
  | setsCurrent | inStrand => exact h

namespace StackOk

variable {th : SchedulerThread Id}

/-- A function that is called resets `_currentScheduler` before it returns. -/
theorem invoke {f : ItemFunction Id} (hf : f.Resets) (owner : Option (Scheduler Id))
    (h : StackOk none th.stack) :
    StackOk (th.invoke owner f).currentScheduler (th.invoke owner f).stack := by
  induction f generalizing owner th with
  | item code => exact hf.elim
  | setsCurrent scheduler g ih =>
    cases g with
    | item code => exact ⟨rfl, h, h⟩
    | setsCurrent | inStrand => exact ih hf (some scheduler) h
  | inStrand id scheduler g ih => exact ih hf owner ⟨rfl, h⟩

/-- `EnqueueItem` is called where the frames below do not need `_currentScheduler`. -/
theorem enqueueItem {f : ItemFunction Id} {scheduler : Scheduler Id}
    (hf : (ItemFunction.setsCurrent scheduler f).Resets) (h : StackOk none th.stack) :
    StackOk (th.enqueueItem scheduler f).currentScheduler (th.enqueueItem scheduler f).stack :=
  ⟨hf, h, h⟩

end StackOk

structure SchedulerInv (s : SchedulerSystem T Id) : Prop where
  stack : ∀ t, StackOk (s.thread t).currentScheduler (s.thread t).stack
  deferred : ∀ scheduler, ∀ f ∈ s.deferred scheduler, f.Resets
  strand : ∀ scheduler, ∀ f ∈ (s.strand scheduler).strandQueue, f.Resets
  returned : ∀ r ∈ s.returned, r.2 = none

namespace SchedulerInv

variable {s s' : SchedulerSystem T Id} {t : T} {th : SchedulerThread Id} {f : ItemFunction Id}

theorem setThread [DecidableEq T] (h : SchedulerInv s)
    (hth : StackOk th.currentScheduler th.stack) :
    SchedulerInv (s.setThread t th) := by
  refine ⟨fun u => ?_, h.deferred, h.strand, h.returned⟩
  by_cases hu : u = t
  · subst hu
    simpa using hth
  · simpa [Function.update_of_ne hu] using h.stack u

theorem setStrand [DecidableEq Id] (h : SchedulerInv s) {strand : Scheduler Id} {st : StrandState Id}
    (hst : ∀ f ∈ st.strandQueue, f.Resets) : SchedulerInv (s.setStrand strand st) := by
  refine ⟨h.stack, h.deferred, fun scheduler => ?_, h.returned⟩
  by_cases hs : scheduler = strand
  · subst hs
    simpa [SchedulerSystem.setStrand] using hst
  · simpa [SchedulerSystem.setStrand, Function.update_of_ne hs] using h.strand scheduler

theorem setDeferred [DecidableEq Id] (h : SchedulerInv s) {scheduler : Scheduler Id}
    {fs : List (ItemFunction Id)}
    (hfs : ∀ f ∈ fs, f.Resets) :
    SchedulerInv { s with deferred := Function.update s.deferred scheduler fs } := by
  refine ⟨h.stack, fun sch => ?_, h.strand, h.returned⟩
  by_cases hs : sch = scheduler
  · subst hs
    simpa using hfs
  · simpa [Function.update_of_ne hs] using h.deferred sch

/-- An `EnqueueItem` is left. -/
theorem leave (h : SchedulerInv s) (before : Option (Scheduler Id)) :
    SchedulerInv { s with returned := s.returned ++ [(before, none)] } := by
  refine ⟨h.stack, h.deferred, h.strand, fun r hr => ?_⟩
  rcases List.mem_append.mp hr with hr | hr
  · exact h.returned r hr
  · rw [List.mem_singleton.mp hr]

variable [DecidableEq T] [DecidableEq Id]

/-- A strand hands its function over or parks it. -/
theorem tryRunItem (h : SchedulerInv s) (hcur : StackOk th.currentScheduler th.stack)
    (hnone : StackOk none th.stack) (hf : f.Resets) {st : StrandState Id}
    (hst : ∀ f ∈ st.strandQueue, f.Resets) (id : Id) (scheduler : Scheduler Id) :
    SchedulerInv (s.tryRunItem t th id scheduler st f) := by
  unfold SchedulerSystem.tryRunItem
  split_ifs
  · refine (h.setThread hcur).setStrand fun g hg => ?_
    rcases List.mem_append.mp hg with hg | hg
    · exact hst g hg
    · rw [List.mem_singleton.mp hg]
      exact hf
  · exact (h.setThread (StackOk.enqueueItem (hf.setsCurrent scheduler) hnone)).setStrand hst

theorem onEnqueueItem (h : SchedulerInv s) (hcur : StackOk th.currentScheduler th.stack)
    (hnone : StackOk none th.stack) (hf : f.Resets) {scheduler : Scheduler Id}
    (hs : s.onEnqueueItem t th f scheduler = some s') : SchedulerInv s' := by
  have hqueue : ∀ sch, ∀ g ∈ s.deferred sch ++ [f], g.Resets := by
    intro sch g hg
    rcases List.mem_append.mp hg with hg | hg
    · exact h.deferred sch g hg
    · rw [List.mem_singleton.mp hg]
      exact hf
  unfold SchedulerSystem.onEnqueueItem at hs
  split at hs
  · cases hs
    exact h.setThread (StackOk.invoke hf none hnone)
  · cases hs
    exact h.setThread (StackOk.invoke hf none hnone)
  · cases hs
    exact (h.setThread hcur).setDeferred (hqueue _)
  · cases hs
    exact (h.setThread hcur).setDeferred (hqueue _)
  · split_ifs at hs
    · cases hs
      exact h.setThread (StackOk.enqueueItem (hf.setsCurrent _) hnone)
    · cases hs
      refine h.tryRunItem ?_ ?_ ?_ ?_ _ _
      · exact hcur
      · exact hnone
      · exact hf
      · exact h.strand _

theorem markStrandOperationAsDone (h : SchedulerInv s) (hcur : StackOk th.currentScheduler th.stack)
    (hnone : StackOk none th.stack) {id : Id} {scheduler : Scheduler Id}
    (hs : s.markStrandOperationAsDone t th id scheduler = some s') : SchedulerInv s' := by
  have hstrand := h.strand (.strand id scheduler)
  unfold SchedulerSystem.markStrandOperationAsDone at hs
  simp only at hs
  split_ifs at hs
  split at hs
  · rename_i hq
    cases hs
    refine SchedulerInv.setStrand (h.setThread ?_) ?_
    · exact hcur
    · rw [hq]
      nofun
  · rename_i g gs hq
    cases hs
    rw [hq] at hstrand
    refine h.tryRunItem ?_ ?_ (hstrand g List.mem_cons_self) ?_ _ _
    · exact hcur
    · exact hnone
    · exact fun g' hg' => hstrand g' (List.mem_cons_of_mem g hg')

theorem run (h : SchedulerInv s) (hs : s.run t = some s') : SchedulerInv s' := by
  have hstack := h.stack t
  unfold SchedulerSystem.run at hs
  simp only at hs
  split at hs
  · rename_i hst
    split_ifs at hs
    cases hs
    exact h.setThread hstack
  all_goals
    rename_i hst
    rw [hst] at hstack
  · cases hs
    exact h.setThread hstack.2.1
  · cases hs
    exact h.setThread hstack.2.1
  · cases hs
    exact h.setThread (StackOk.enqueueItem trivial ⟨rfl, hstack.2.2⟩)
  · obtain ⟨hcur, hnone⟩ := hstack
    split_ifs at hs
    · cases hs
      refine h.setThread ?_
      rw [hcur]
      exact hnone
    · cases hs
      refine h.setThread ⟨hcur, ?_, hnone⟩
      rw [hcur]
      exact hnone
  · cases hs
    refine SchedulerInv.leave (h.setThread ?_) _
    exact hstack
  · exact h.onEnqueueItem hstack.2.1 hstack.2.2 hstack.1 hs
  · cases hs
    exact h.setThread hstack
  · obtain ⟨hcur, hnone⟩ := hstack
    have hcur' : StackOk (s.thread t).currentScheduler _ := hcur ▸ hnone
    split_ifs at hs
    · cases hs
      exact h.setThread hcur'
    · exact h.markStrandOperationAsDone hcur' hnone hs
  · cases hs
    exact (h.setThread hstack).setStrand (h.strand _)

theorem step (h : SchedulerInv s) {a : SchedulerLabel T Id} (hs : s.step a = some s') :
    SchedulerInv s' := by
  cases a with
  | begin t code =>
    simp only [SchedulerSystem.step] at hs
    split at hs
    · rename_i hst _
      have hstack := h.stack t
      cases hs
      rw [hst] at hstack
      refine h.setThread ⟨hstack, ?_, ?_⟩ <;> rw [hst]
      · exact hstack
      · rfl
    · cases hs
  | take t scheduler =>
    simp only [SchedulerSystem.step] at hs
    split at hs
    · rename_i f deferred hst _ hd
      have hfs := h.deferred scheduler
      rw [hd] at hfs
      cases hs
      refine (h.setThread (StackOk.invoke (hfs f List.mem_cons_self) none ?_)).setDeferred
        fun g hg => hfs g (List.mem_cons_of_mem f hg)
      rw [hst]
      rfl
    · cases hs
  | run t => exact h.run hs

end SchedulerInv

variable [DecidableEq T] [DecidableEq Id]

theorem reachable_schedulerInv {s : SchedulerSystem T Id}
    (h : (schedulerMachine T Id).Reachable Machine.Any s) : SchedulerInv s := by
  refine h.invariant ?_ fun _ _ _ hi _ hs => hi.step hs
  exact ⟨fun _ => rfl, nofun, nofun, nofun⟩

/-- In every state of every run the discipline is kept exactly where no running item has called
    `EnqueueItem`, and no `EnqueueItem` that is over was called where `CurrentScheduler()` was
    set. -/
theorem current_scheduler_iff {s : SchedulerSystem T Id}
    (h : (schedulerMachine T Id).Reachable Machine.Any s) : StackDiscipline s ↔ NotNested s := by
  have hinv := reachable_schedulerInv h
  have hcurrent : ∀ t scheduler called code stack,
      (s.thread t).stack = .code (some scheduler) called code :: stack →
        (s.thread t).currentScheduler = if called then none else some scheduler := by
    intro t scheduler called code stack hst
    have hstack := hinv.stack t
    rw [hst] at hstack
    exact hstack.1
  refine ⟨fun hd => ⟨fun t scheduler called code stack hst => ?_, fun r hr => ?_⟩,
    fun hn => ⟨fun t scheduler called code stack hst => ?_, fun r hr => ?_⟩⟩
  · have hset := hd.item t scheduler called code stack hst
    rw [hcurrent t scheduler called code stack hst] at hset
    cases called with
    | false => rfl
    | true => cases hset
  · rw [← hd.restored r hr, hinv.returned r hr]
  · rw [hcurrent t scheduler called code stack hst, hn.item t scheduler called code stack hst]
    rfl
  · rw [hn.call r hr, hinv.returned r hr]

/-- An item of a strand over a pool of two threads, run by the other thread. -/
theorem current_scheduler_iff_strand :
    ∃ s : SchedulerSystem Bool ℕ, (schedulerMachine Bool ℕ).Reachable Machine.Any s ∧
      (s.thread false).currentScheduler = some (.strand 0 (.threadPool 1 2)) ∧
        StackDiscipline s := by
  obtain ⟨s, hr, htrue, hfalse, hreturned, hcurrent⟩ :
      ∃ s : SchedulerSystem Bool ℕ, (schedulerMachine Bool ℕ).run (schedulerMachine Bool ℕ).init
          (.begin true (.enqueueItem (.strand 0 (.threadPool 1 2)) .done false .done) ::
            List.replicate 7 (.run true) ++ [.take false (.threadPool 1 2)]) = some s ∧
        (s.thread true).stack = [.code none true .done] ∧
        (s.thread false).stack = [.code (some (.strand 0 (.threadPool 1 2))) false .done,
          .setsCurrent, .markStrandOperationAsDone 0 (.threadPool 1 2), .setsCurrent] ∧
        s.returned = [(none, none), (none, none)] ∧
        (s.thread false).currentScheduler = some (.strand 0 (.threadPool 1 2)) :=
    ⟨_, rfl, rfl, rfl, rfl, rfl⟩
  refine ⟨s, .of_run hr, hcurrent, (current_scheduler_iff (.of_run hr)).mpr ⟨?_, ?_⟩⟩
  · intro t scheduler called code stack hst
    cases t with
    | false =>
      cases hfalse.symm.trans hst
      rfl
    | true => cases htrue.symm.trans hst
  · rw [hreturned]
    simp

/-- An item of one `CurrentThreadScheduler` that enqueues an item of another: afterwards
    `CurrentScheduler()` is null in the rest of the item. -/
theorem not_current_scheduler :
    ¬ ∀ s : SchedulerSystem Bool ℕ, (schedulerMachine Bool ℕ).Reachable Machine.Any s →
      StackDiscipline s := by
  intro h
  obtain ⟨s, hr, hstack, hcurrent⟩ :
      ∃ s : SchedulerSystem Bool ℕ, (schedulerMachine Bool ℕ).run (schedulerMachine Bool ℕ).init
          (.begin true (.enqueueItem (.currentThread 0)
            (.enqueueItem (.currentThread 1) .done false .done) false .done) ::
              List.replicate 8 (.run true)) = some s ∧
        (s.thread true).stack = [.code (some (.currentThread 0)) true .done, .setsCurrent,
          .enqueueItem none, .calling none false .done] ∧
        (s.thread true).currentScheduler = none :=
    ⟨_, rfl, rfl, rfl⟩
  cases hcurrent.symm.trans ((h s (.of_run hr)).item true _ _ _ _ hstack)

end AsyncCpp.Schedulers
