import Mathlib.Logic.Relation
import AsyncCpp.DataFlow.UserDriven

/-!
# Runs inside one block

What a block does on its own, as runs of the network: its processing task between two calls
of other blocks, and `completeCommon` up to its loop over the next blocks.

Results:
* `reaches_local`: a run inside a block is a run of the network.
* `exists_completed`: a block in `completeCommon`, with nobody else at its queue, and with no
  next blocks or no items, can run all its items and complete `Completion()`.
* `reaches_goesOn`: runs of concrete labels.
* `reaches_accept`, `reaches_offer`: the calls of `AcceptInputAsync` at a queue that nobody
  else is at.
-/

namespace AsyncCpp.AsyncPrimitives.AsyncCollection

open Tasks

variable {K α ε : Type*} [DecidableEq K]

/-- Nobody is at the semaphore, and nobody waits. -/
structure Still (q : AsyncCollection K α ε) : Prop where
  critical : q.asyncSemaphore.critical = .free
  waiters : q.asyncSemaphore.waiters = []

/-- An `Add` that nobody interrupts. -/
def put (q : AsyncCollection K α ε) (x : α) : AsyncCollection K α ε :=
  { q with
    innerCollection := q.innerCollection ++ [x], added := q.added ++ [x]
    asyncSemaphore := q.asyncSemaphore.release }

variable {q : AsyncCollection K α ε}

omit [DecidableEq K] in
theorem Still.release_eq (h : q.Still)
    (hroom : q.asyncSemaphore.currentCount ≠ q.asyncSemaphore.maxCount) :
    q.asyncSemaphore.release = { q.asyncSemaphore with
      currentCount := q.asyncSemaphore.currentCount + 1
      released := q.asyncSemaphore.released + 1 } := by
  simp [AsyncSemaphore.release, hroom, h.waiters]

theorem Still.release_step (h : q.Still) (x : α) :
    ∃ q', q.step (.push x) = some q' ∧ q'.asyncSemaphore = q.asyncSemaphore ∧
      q'.step .release = some (q.put x) := by
  refine ⟨_, rfl, rfl, ?_⟩
  simp [step, semaphoreStep, AsyncSemaphore.step, h.critical, put]

/-- The queue holds `xs` and `count` permits; nobody has waited and nobody has cancelled. -/
structure Stocked (q : AsyncCollection K α ε) (count : ℤ) (xs : List α) : Prop extends Still q where
  count : q.asyncSemaphore.currentCount = count
  maxCount : q.asyncSemaphore.maxCount = intMax
  token : ∀ k, q.asyncSemaphore.token k = {}
  items : q.innerCollection = xs
  fresh : ∀ i, q.asyncSemaphore.issued ≤ i → q.outcome i = none

omit [DecidableEq K] in
theorem Stocked.put {count : ℤ} {xs : List α} (h : q.Stocked count xs) (hroom : count ≠ intMax)
    (x : α) : (q.put x).Stocked (count + 1) (xs ++ [x]) := by
  have hrel := h.release_eq (by rw [h.count, h.maxCount]; exact hroom)
  refine ⟨⟨?_, ?_⟩, ?_, ?_, ?_, ?_, ?_⟩ <;> simp only [AsyncCollection.put, hrel]
  · exact h.critical
  · exact h.waiters
  · rw [h.count]
  · exact h.maxCount
  · exact h.token
  · rw [h.items]
  · exact h.fresh

omit [DecidableEq K] in
/-- At a full semaphore the item stays in the queue, although `Release()` throws. -/
theorem Stocked.put_full {xs : List α} (h : q.Stocked intMax xs) (x : α) :
    (q.put x).Stocked intMax (xs ++ [x]) := by
  have hrel : q.asyncSemaphore.release =
      { q.asyncSemaphore with rejected := q.asyncSemaphore.rejected + 1 } := by
    simp [AsyncSemaphore.release, h.count, h.maxCount]
  refine ⟨⟨?_, ?_⟩, ?_, ?_, ?_, ?_, ?_⟩ <;> simp only [AsyncCollection.put, hrel]
  · exact h.critical
  · exact h.waiters
  · exact h.count
  · exact h.maxCount
  · exact h.token
  · rw [h.items]
  · exact h.fresh

/-- A `TakeAsync` that gets a permit and an item at once. -/
theorem Stocked.exists_taken {count : ℤ} {x : α} {xs : List α} (h : q.Stocked count (x :: xs))
    (hpos : 0 < count) (k : K) :
    ∃ q₁ q₂, q.step (.takeAsync (some k)) = some q₁ ∧
      q₁.step (.resume q.asyncSemaphore.issued) = some q₂ ∧
      q₁.asyncSemaphore.critical = .free ∧ q₁.outcome q.asyncSemaphore.issued = none ∧
      q₂.asyncSemaphore.critical = .free ∧
      q₂.outcome q.asyncSemaphore.issued = some (.ok x) ∧ q₂.Stocked (count - 1) xs := by
  have hout := h.fresh _ le_rfl
  obtain ⟨q₁, h1, hsem, hin1, hout1⟩ : ∃ q₁, q.step (.takeAsync (some k)) = some q₁ ∧
      q₁.asyncSemaphore = { q.asyncSemaphore with
        currentCount := q.asyncSemaphore.currentCount - 1
        issued := q.asyncSemaphore.issued + 1
        waitTask := Function.update q.asyncSemaphore.waitTask q.asyncSemaphore.issued granted } ∧
      q₁.innerCollection = q.innerCollection ∧ q₁.outcome = q.outcome := by
    simp [step, semaphoreStep, AsyncSemaphore.step, h.critical, AsyncSemaphore.waitAsync, h.count,
      hpos]
  have hcrit : q₁.asyncSemaphore.critical = .free := by rw [hsem]; exact h.critical
  have htask : q₁.asyncSemaphore.waitTask q.asyncSemaphore.issued = granted := by
    rw [hsem]
    exact Function.update_self ..
  obtain ⟨q₂, h2, hsem2, hin2, hout2⟩ : ∃ q₂, q₁.step (.resume q.asyncSemaphore.issued) = some q₂ ∧
      q₂.asyncSemaphore = q₁.asyncSemaphore ∧ q₂.innerCollection = xs ∧
      q₂.outcome = Function.update q.outcome q.asyncSemaphore.issued (some (.ok x)) := by
    refine ⟨q₁.resume q.asyncSemaphore.issued, ?_, ?_⟩
    · simp [step, htask, hcrit, hout1, hout, Critical.calling, granted, TaskSharedState.ended,
        TaskState.isCompleted]
    · have hwait : (granted : TaskSharedState Unit ε).waitOutcome = .ok () := rfl
      simp [resume, htask, hwait, hin1, h.items, hout1]
  refine ⟨q₁, q₂, h1, h2, hcrit, by rw [hout1, hout], by rw [hsem2, hcrit], ?_, ?_⟩
  · rw [hout2, Function.update_self]
  · refine ⟨⟨by rw [hsem2, hcrit], ?_⟩, ?_, ?_, ?_, hin2, fun i hi => ?_⟩ <;>
      rw [hsem2, hsem] at *
    · exact h.waiters
    · simp only [h.count]
    · exact h.maxCount
    · exact h.token
    · have hne : i ≠ q.asyncSemaphore.issued := by
        simp only at hi
        omega
      rw [hout2, Function.update_of_ne hne]
      exact h.fresh i (by simp only at hi; omega)

/-- A `Cancel()` that nobody interrupts, of a token without actions. -/
theorem exists_canceled (k : K) (hc : q.asyncSemaphore.critical = .free)
    (ht : q.asyncSemaphore.token k = {}) :
    ∃ q₁ q₂ q₃, q.step (.cancel k) = some q₁ ∧ q₁.step (.runCancel k) = some q₂ ∧
      q₂.step (.runCancel k) = some q₃ ∧ q₁.asyncSemaphore.canceling k = .exchanged ∧
      q₂.asyncSemaphore.canceling k = .running [] ∧ q₃.asyncSemaphore.canceling k = .idle ∧
      (q₃.asyncSemaphore.token k).isCanceled ∧ q₃.innerCollection = q.innerCollection := by
  obtain ⟨q₁, h1, hex, ht1, hc1, hq1⟩ : ∃ q₁, q.step (.cancel k) = some q₁ ∧
      q₁.asyncSemaphore.canceling k = .exchanged ∧
      q₁.asyncSemaphore.token k = { isCanceled := true } ∧
      q₁.asyncSemaphore.critical = .free ∧ q₁.innerCollection = q.innerCollection := by
    simp [step, semaphoreStep, AsyncSemaphore.step, ht, hc]
  obtain ⟨q₂, h2, hrun, ht2, hq2⟩ : ∃ q₂, q₁.step (.runCancel k) = some q₂ ∧
      q₂.asyncSemaphore.canceling k = .running [] ∧
      q₂.asyncSemaphore.token k = { isCanceled := true } ∧
      q₂.innerCollection = q₁.innerCollection := by
    simp [step, semaphoreStep, AsyncSemaphore.step, AsyncSemaphore.runCancel, hex, hc1, ht1,
      AsyncSemaphore.cancelActionsMutexFree, CtsSharedState.moveActions]
  obtain ⟨q₃, h3, hidle, ht3, hq3⟩ : ∃ q₃, q₂.step (.runCancel k) = some q₃ ∧
      q₃.asyncSemaphore.canceling k = .idle ∧
      q₃.asyncSemaphore.token k = { isCanceled := true } ∧
      q₃.innerCollection = q₂.innerCollection := by
    simp [step, semaphoreStep, AsyncSemaphore.step, AsyncSemaphore.runCancel, hrun, ht2]
  exact ⟨q₁, q₂, q₃, h1, h2, h3, hex, hrun, hidle, by rw [ht3], by rw [hq3, hq2, hq1]⟩

end AsyncCpp.AsyncPrimitives.AsyncCollection

namespace AsyncCpp.DataFlow

open Interleaving Tasks AsyncPrimitives

variable {Node Item σ ε : Type*}

namespace Block

/-- A step inside a block. -/
def LocalStep (N : Network Node Item σ ε) (n : Node) (b b' : Block Node Item σ ε) : Prop :=
  b.advance = some (b', .reply .inside) ∨ b.process N n = some b'

abbrev LocalRun (N : Network Node Item σ ε) (n : Node) :
    Block Node Item σ ε → Block Node Item σ ε → Prop :=
  Relation.ReflTransGen (LocalStep N n)

variable {N : Network Node Item σ ε} {n : Node} {b b' b'' : Block Node Item σ ε}

theorem LocalRun.ofProcess (h : b.process N n = some b') (hr : LocalRun N n b' b'') :
    LocalRun N n b b'' :=
  .head (.inr h) hr

theorem LocalRun.ofAdvance (h : b.advance = some (b', .reply .inside))
    (hr : LocalRun N n b' b'') : LocalRun N n b b'' :=
  .head (.inl h) hr

/-- The last loop of the processing task, in a block without next blocks. -/
theorem exists_drained (hok : N.Returns) (hleaf : N.outputNodes n = [])
    (xs : List (QueueItem Node Item)) (b : Block Node Item σ ε)
    (hp : b.processingTask = .next (some xs)) :
    ∃ st, LocalRun N n b { b with
      processingTask := .finished (.ok ()), ran := b.ran ++ xs, nodeState := st } := by
  induction xs generalizing b with
  | nil =>
    refine ⟨b.nodeState, ?_⟩
    rw [List.append_nil, show (.finished (.ok ()) : Processing Node Item ε) = b.processingTask
      from hp.symm]
  | cons x xs ih =>
    obtain ⟨y, st, hf⟩ := hok n b.nodeState x.item
    obtain ⟨st', hrun⟩ := ih { b with
      ran := b.ran ++ [x], nodeState := st, processingTask := .next (some xs) } rfl
    refine ⟨st', ?_⟩
    have hinvoke : b.process N n = some { b with
        ran := b.ran ++ [x], nodeState := st, processingTask := .asking y [] [] (some xs) } := by
      simp only [process, hp, Processing.next, invoke, hf, hleaf]
    refine .ofProcess hinvoke (.ofProcess rfl (.ofProcess rfl ?_))
    simpa using hrun

/-- `completeCommon` up to `_processingTask.Wait()`. -/
theorem exists_wait {caller : Caller Node} {e : Option (Exn ε)}
    (hm : b.stateMutex = some ⟨caller, .cancel e⟩)
    (hc : b.inputItems.asyncSemaphore.critical = .free)
    (ht : b.inputItems.asyncSemaphore.token () = {}) :
    ∃ q, q.innerCollection = b.inputItems.innerCollection ∧
      (q.asyncSemaphore.token ()).isCanceled ∧
      LocalRun N n b { b with inputItems := q, stateMutex := some ⟨caller, .wait e⟩ } := by
  obtain ⟨q₁, q₂, q₃, h1, h2, h3, hex, hrun, hidle, ht3, hq3⟩ :=
    AsyncCollection.exists_canceled () hc ht
  have hcancel : b.advance = some ({ b with
      inputItems := q₁, stateMutex := some ⟨caller, .canceling e⟩ }, .reply .inside) := by
    simp only [advance, hm, h1, Option.map_some]
  have hexchanged : ({ b with
      inputItems := q₁, stateMutex := some ⟨caller, .canceling e⟩ } : Block Node Item σ ε).advance =
        some ({ b with inputItems := q₂, stateMutex := some ⟨caller, .canceling e⟩ },
          .reply .inside) := by
    simp only [advance, hex, h2, Option.map_some]
  have hrunning : ({ b with
      inputItems := q₂, stateMutex := some ⟨caller, .canceling e⟩ } : Block Node Item σ ε).advance =
        some ({ b with inputItems := q₃, stateMutex := some ⟨caller, .canceling e⟩ },
          .reply .inside) := by
    simp only [advance, hrun, h3, Option.map_some]
  have hdone : ({ b with
      inputItems := q₃, stateMutex := some ⟨caller, .canceling e⟩ } : Block Node Item σ ε).advance =
        some ({ b with inputItems := q₃, stateMutex := some ⟨caller, .wait e⟩ },
          .reply .inside) := by
    simp only [advance, hidle]
  exact ⟨q₃, hq3, ht3, .ofAdvance hcancel (.ofAdvance hexchanged (.ofAdvance hrunning
    (.ofAdvance hdone .refl)))⟩

/-- The processing task of a block whose token is cancelled, from its loop to its end. -/
theorem exists_finished (hok : N.Returns)
    (hleaf : N.outputNodes n = [] ∨ b.inputItems.innerCollection = [])
    (hp : b.processingTask = .loop ∨
      b.processingTask = .awaitStart ∧ b.startTask.state.isCompleted)
    (ht : (b.inputItems.asyncSemaphore.token ()).isCanceled) :
    ∃ q st, LocalRun N n b { b with
      processingTask := .finished (.ok ()), inputItems := q
      ran := b.ran ++ b.inputItems.innerCollection, nodeState := st } := by
  have hloop : ∃ q st, LocalRun N n { b with processingTask := .loop } { b with
      processingTask := .finished (.ok ()), inputItems := q
      ran := b.ran ++ b.inputItems.innerCollection, nodeState := st } := by
    have hdrain : ({ b with processingTask := .loop } : Block Node Item σ ε).process N n =
        some { b with processingTask := .drain } := by
      simp only [process, ht, if_true]
    have htake : ({ b with processingTask := .drain } : Block Node Item σ ε).process N n =
        some { b with
          inputItems := b.inputItems.tryTakeAll
          processingTask := .next (some b.inputItems.innerCollection) } := rfl
    rcases hleaf with hleaf | hnil
    · obtain ⟨st, hrun⟩ := exists_drained hok hleaf b.inputItems.innerCollection { b with
        inputItems := b.inputItems.tryTakeAll
        processingTask := .next (some b.inputItems.innerCollection) } rfl
      exact ⟨b.inputItems.tryTakeAll, st, .ofProcess hdrain (.ofProcess htake hrun)⟩
    · refine ⟨b.inputItems.tryTakeAll, b.nodeState, .ofProcess hdrain (.ofProcess htake ?_)⟩
      rw [hnil, List.append_nil]
      exact .refl
  obtain ⟨q, st, hrun⟩ := hloop
  rcases hp with hp | ⟨hp, hst⟩
  · have hb : ({ b with processingTask := .loop } : Block Node Item σ ε) = b := by
      rw [← hp]
    rw [hb] at hrun
    exact ⟨q, st, hrun⟩
  · have hstart : b.process N n = some { b with processingTask := .loop } := by
      simp only [process, hp, hst, if_true]
    exact ⟨q, st, .ofProcess hstart hrun⟩

/-- `completeCommon` up to its loop over the next blocks, in a block that nobody else is at the
    queue of and that has no next blocks or no items: the function is called on the items, and
    `Completion()` is completed. -/
theorem exists_completed (hok : N.Returns) {caller : Caller Node}
    (hm : b.stateMutex = some ⟨caller, .cancel none⟩)
    (hc : b.inputItems.asyncSemaphore.critical = .free)
    (ht : b.inputItems.asyncSemaphore.token () = {})
    (hleaf : N.outputNodes n = [] ∨ b.inputItems.innerCollection = [])
    (hp : b.processingTask = .loop ∨
      b.processingTask = .awaitStart ∧ b.startTask.state.isCompleted) :
    ∃ q st, LocalRun N n b { b with
      state := .stopped, stateMutex := some ⟨caller, .finally none none none⟩
      completedTask := b.completedTask.exec (.trySetResult ())
      processingTask := .finished (.ok ()), inputItems := q
      ran := b.ran ++ b.inputItems.innerCollection, nodeState := st } := by
  obtain ⟨q, hq, htoken, hwait⟩ := exists_wait (N := N) (n := n) hm hc ht
  obtain ⟨q', st, hfinish⟩ := exists_finished (N := N) (n := n)
    (b := { b with inputItems := q, stateMutex := some ⟨caller, .wait none⟩ }) hok
    (by rwa [← hq] at hleaf) hp htoken
  refine ⟨q', st, hwait.trans (hfinish.trans (LocalRun.ofAdvance ?_ .refl))⟩
  simp only [advance, Processing.outcome, Option.map_some, waited, hq]

/-- The processing task takes an item and calls the function on it. -/
theorem exists_invoked (hok : N.Returns) (hp : b.processingTask = .loop) {count : ℤ}
    {x : QueueItem Node Item} {xs : List (QueueItem Node Item)}
    (h : b.inputItems.Stocked count (x :: xs)) (hpos : 0 < count) :
    ∃ q y st, q.Stocked (count - 1) xs ∧
      N.transformFunc n b.nodeState x.item = (.ok y, st) ∧ LocalRun N n b { b with
        inputItems := q, ran := b.ran ++ [x], nodeState := st
        processingTask := .asking y (N.outputNodes n) [] none } := by
  obtain ⟨q₁, q₂, h1, h2, hc1, ho1, hc2, ho2, hq⟩ := h.exists_taken hpos ()
  obtain ⟨y, st, hf⟩ := hok n b.nodeState x.item
  have htake : b.process N n = some { b with
      inputItems := q₁, processingTask := .taking b.inputItems.asyncSemaphore.issued } := by
    simp [process, hp, h.token, h1]
  have hresume : ({ b with
      inputItems := q₁, processingTask := .taking b.inputItems.asyncSemaphore.issued } :
        Block Node Item σ ε).process N n = some { b with
      inputItems := q₂, processingTask := .taking b.inputItems.asyncSemaphore.issued } := by
    simp [process, hc1, Critical.calling, ho1, h2]
  have htook : ({ b with
      inputItems := q₂, processingTask := .taking b.inputItems.asyncSemaphore.issued } :
        Block Node Item σ ε).process N n = some { b with
      inputItems := q₂, processingTask := .invoke x none } := by
    simp [process, hc2, Critical.calling, ho2]
  refine ⟨q₂, y, st, hq, hf, .ofProcess htake (.ofProcess hresume (.ofProcess htook
    (.ofProcess ?_ .refl)))⟩
  simp only [process, invoke, hf]

/-- The block is started, and nobody is at it or at its queue. -/
structure Ready (b : Block Node Item σ ε) : Prop where
  started : b.state = .started
  stateMutex : b.stateMutex = none
  still : b.inputItems.Still

/-- The block after an `AcceptInputAsync` that nobody interrupts, and how that ends. -/
def put (b : Block Node Item σ ε) (x : QueueItem Node Item) : Block Node Item σ ε :=
  { b with inputItems := b.inputItems.put x }

def putPhase (b : Block Node Item σ ε) : AcceptPhase ε :=
  if b.full then .threw .semaphoreFull else .returned

theorem Ready.accept (h : b.Ready) (x : QueueItem Node Item) :
    b.acceptInputAsync x .throwIfNotStarted = some (b, .push) ∧
      ∃ b₁, b.acceptInputAsync x .push = some (b₁, .release) ∧
        b₁.acceptInputAsync x .release = some (b.put x, b.putPhase) := by
  obtain ⟨q, hpush, hq, hrelease⟩ := h.still.release_step x
  refine ⟨?_, { b with inputItems := q }, ?_, ?_⟩
  · simp [acceptInputAsync, h.stateMutex, h.started]
  · simp only [acceptInputAsync, hpush, Option.map_some]
  · have hfull : ({ b with inputItems := q } : Block Node Item σ ε).full ↔ b.full := by
      simp only [full, hq]
    simp only [acceptInputAsync, hrelease, Option.map_some, putPhase, hfull]
    by_cases hf : b.full
    · simp only [if_pos hf]
      rfl
    · have hfree : (b.inputItems.put x).lockFree = true := by
        simp [AsyncCollection.lockFree, AsyncCollection.put, h.still.release_eq hf,
          h.still.critical]
      simp only [if_neg hf, AcceptPhase.afterRelease, hfree, if_true]
      rfl

end Block

/-! ## Runs of the network -/

variable [DecidableEq Node]

namespace Dataflow

variable {N : Network Node Item σ ε} {root n : Node} {s s' : Dataflow Node Item σ ε}

theorem set_self (s : Dataflow Node Item σ ε) (n : Node) : s.set n (s.block n) = s := by
  simp only [set, Function.update_eq_self]

theorem set_set (s : Dataflow Node Item σ ε) (n : Node) (b b' : Block Node Item σ ε) :
    (s.set n b).set n b' = s.set n b' := by
  simp only [set, Function.update_idem]

theorem step_process (ht : s.terminated = false) (h : s.process N n = some s') :
    (dataflowMachine N).step s (.process n) = some s' := by
  simp [dataflowMachine, step, ht, h]

theorem step_advance (ht : s.terminated = false) (h : s.advance n = some s') :
    (dataflowMachine N).step s (.advance n) = some s' := by
  simp [dataflowMachine, step, ht, h]

theorem process_of_block {b : Block Node Item σ ε} (h : (s.block n).process N n = some b) :
    s.process N n = some (s.set n b) := by
  unfold process
  split
  · rename_i hp
    simp only [Block.process, hp] at h
    cases h
  · rename_i hp
    simp only [Block.process, hp] at h
    cases h
  · rw [h]
    rfl

/-- A run inside a block is a run of the network. -/
theorem reaches_local (ht : s.terminated = false) {b : Block Node Item σ ε}
    (h : Block.LocalRun N n (s.block n) b) :
    (dataflowMachine N).Reaches (UserDriven root) s (s.set n b) := by
  induction h with
  | refl =>
    rw [set_self]
    exact .refl
  | @tail b₁ b₂ _ hstep ih =>
    rcases hstep with hstep | hstep
    · refine ih.tail (a := .advance n) trivial (step_advance ht ?_)
      have hb : ((s.set n b₁).block n).advance = some (b₂, .reply .inside) := by
        rwa [set_block_self]
      simp only [advance, hb, reply, set_set]
    · refine ih.tail (a := .process n) trivial (step_process ht ?_)
      have hb : ((s.set n b₁).block n).process N n = some b₂ := by
        rwa [set_block_self]
      rw [process_of_block hb, set_set]

/-- The label of a thread that is at work, and no `Release()` finds its semaphore full. -/
def goesOn (s : Dataflow Node Item σ ε) : DataflowLabel Node Item ε → Bool
  | .runCall k => s.hasRoom (.runCall k)
  | .advance n => s.hasRoom (.advance n)
  | .process n => s.hasRoom (.process n)
  | _ => false

theorem reaches_goesOn (as : List (DataflowLabel Node Item ε))
    (h : (dataflowMachine N).runWhile goesOn s as = some s') :
    (dataflowMachine N).Reaches (InRoom root) s s' := by
  refine .of_runWhile (fun s a ha => ?_) as h
  cases a with
  | runCall k | advance n | process n => exact ⟨trivial, .of_hasRoom ha⟩
  | _ => cases ha

/-! ## Calls of `AcceptInputAsync` that nobody interrupts -/

theorem set_comm (s : Dataflow Node Item σ ε) {n c : Node} (h : c ≠ n)
    (b b' : Block Node Item σ ε) : (s.set n b).set c b' = (s.set c b').set n b := by
  simp only [set, Function.update_comm h]

theorem process_offering {y : Item} {phase phase' : AcceptPhase ε} {c : Node} {offer : List Node}
    {rest : Option (List (QueueItem Node Item))} {bc : Block Node Item σ ε}
    (hp : (s.block n).processingTask = .offering y phase (c :: offer) rest) (hcn : c ≠ n)
    (hb : (s.block c).acceptInputAsync ⟨.block n, y⟩ phase = some (bc, phase')) :
    s.process N n = some ((s.set c bc).set n
      { s.block n with processingTask := offered y c offer rest phase' }) := by
  simp only [process, hp, hb, Option.map_some, set_block_of_ne _ _ hcn.symm]

/-- `propagateOutput` asks the next block. -/
theorem process_asking {y : Item} {c : Node} {ask offer : List Node}
    {rest : Option (List (QueueItem Node Item))}
    (hp : (s.block n).processingTask = .asking y (c :: ask) offer rest)
    (hc : (s.block c).stateMutex = none) :
    s.process N n = some (s.set n { s.block n with
      processingTask := .asking y ask
        (if s.canAcceptInput N c y then offer ++ [c] else offer) rest }) := by
  simp only [process, hp, hc, Option.isNone_none, if_true]

/-- `propagateOutput` offers its item to the next block. -/
theorem reaches_offer (root : Node) (ht : s.terminated = false) {y : Item} {c : Node}
    {offer : List Node} {rest : Option (List (QueueItem Node Item))}
    (hp : (s.block n).processingTask = .offering y .throwIfNotStarted (c :: offer) rest)
    (hcn : c ≠ n) (hc : (s.block c).Ready) :
    (dataflowMachine N).Reaches (UserDriven root) s
      ((s.set c ((s.block c).put ⟨.block n, y⟩)).set n { s.block n with
        processingTask := offered y c offer rest (s.block c).putPhase }) := by
  obtain ⟨h1, b₁, h2, h3⟩ := hc.accept ⟨.block n, y⟩
  have hs1 : s.process N n = some (s.set n { s.block n with
      processingTask := .offering y .push (c :: offer) rest }) := by
    have hstep := process_offering (N := N) hp hcn h1
    rwa [set_self] at hstep
  have hs2 : (s.set n { s.block n with
      processingTask := .offering y .push (c :: offer) rest }).process N n =
        some ((s.set c b₁).set n { s.block n with
          processingTask := .offering y .release (c :: offer) rest }) := by
    have hstep := process_offering (N := N) (s := s.set n { s.block n with
      processingTask := .offering y .push (c :: offer) rest }) (by rw [set_block_self]) hcn
      ((set_block_of_ne s _ hcn).symm ▸ h2)
    rwa [set_comm _ hcn, set_set, set_block_self] at hstep
  have hs3 : ((s.set c b₁).set n { s.block n with
      processingTask := .offering y .release (c :: offer) rest }).process N n =
        some ((s.set c ((s.block c).put ⟨.block n, y⟩)).set n { s.block n with
          processingTask := offered y c offer rest (s.block c).putPhase }) := by
    have hc₁ : ((s.set c b₁).set n { s.block n with
        processingTask := .offering y .release (c :: offer) rest }).block c = b₁ := by
      rw [set_block_of_ne _ _ hcn, set_block_self]
    have hstep := process_offering (N := N) (s := (s.set c b₁).set n { s.block n with
      processingTask := .offering y .release (c :: offer) rest }) (by rw [set_block_self]) hcn
      (hc₁.symm ▸ h3)
    rwa [set_comm _ hcn, set_set, set_set, set_block_self] at hstep
  exact .head (step_process ht hs1) trivial <| .head (step_process ht hs2) trivial <|
    .head (step_process ht hs3) trivial .refl

/-- The steps of a call of the user that nobody interrupts. -/
theorem accept_steps (ht : s.terminated = false) (hr : (s.block root).Ready) (item : Item) :
    ∃ t₀ t₁ t₂, (dataflowMachine N).step s (.acceptInputAsync root item) = some t₀ ∧
      (dataflowMachine N).step t₀ (.runCall s.calls) = some t₁ ∧
      (dataflowMachine N).step t₁ (.runCall s.calls) = some t₂ ∧
      (dataflowMachine N).step t₂ (.runCall s.calls) = some
        { s.set root ((s.block root).put ⟨.user s.calls, item⟩) with
          call := Function.update s.call s.calls (some ⟨root, item, (s.block root).putPhase⟩)
          calls := s.calls + 1 } := by
  obtain ⟨h1, b₁, h2, h3⟩ := hr.accept ⟨.user s.calls, item⟩
  have hcall : ∀ (b : Block Node Item σ ε) (phase : AcceptPhase ε) (b' phase'),
      b.acceptInputAsync ⟨.user s.calls, item⟩ phase = some (b', phase') →
      (dataflowMachine N).step
        { s.set root b with
          call := Function.update s.call s.calls (some ⟨root, item, phase⟩), calls := s.calls + 1 }
        (.runCall s.calls) = some
        { s.set root b' with
          call := Function.update s.call s.calls (some ⟨root, item, phase'⟩)
          calls := s.calls + 1 } := by
    intro b phase b' phase' hb
    simp [dataflowMachine, step, runCall, set, ht, hb]
  have h0 : (dataflowMachine N).step s (.acceptInputAsync root item) = some
      { s.set root (s.block root) with
        call := Function.update s.call s.calls (some ⟨root, item, .throwIfNotStarted⟩)
        calls := s.calls + 1 } := by
    rw [set_self]
    simp [dataflowMachine, step, ht]
  exact ⟨_, _, _, h0, hcall _ _ _ _ h1, hcall _ _ _ _ h2, hcall _ _ _ _ h3⟩

theorem reaches_accept (ht : s.terminated = false) (huser : .user ∉ (s.block root).completedBy)
    (hr : (s.block root).Ready) (item : Item) :
    (dataflowMachine N).Reaches (UserDriven root) s
      { s.set root ((s.block root).put ⟨.user s.calls, item⟩) with
        call := Function.update s.call s.calls (some ⟨root, item, (s.block root).putPhase⟩)
        calls := s.calls + 1 } := by
  obtain ⟨t₀, t₁, t₂, h0, h1, h2, h3⟩ := accept_steps (N := N) ht hr item
  exact .head h0 ⟨rfl, huser⟩ <| .head h1 trivial <| .head h2 trivial <| .head h3 trivial .refl

/-- The `FinallyBlock` of a block completes a next block that has no next blocks itself. -/
theorem exists_completeNext (root : Node) (hok : N.Returns) (ht : s.terminated = false)
    {caller : Caller Node}
    {c : Node} {cs : List Node}
    (hm : (s.block n).stateMutex = some ⟨caller, .finally none none none⟩)
    (htodo : (s.block n).toComplete = c :: cs) (hcn : c ≠ n) (hleaf : N.outputNodes c = [])
    (hc : (s.block c).Ready) (hcount : (s.block c).startCallsCount = 1)
    (htoken : (s.block c).inputItems.asyncSemaphore.token () = {})
    (hp : (s.block c).processingTask = .awaitStart ∧ (s.block c).startTask.state.isCompleted)
    (hend : (s.block c).toComplete = []) :
    ∃ b, (dataflowMachine N).Reaches (UserDriven root) s
        ((s.set c b).set n { s.block n with toComplete := cs }) ∧
      b.completedTask = (s.block c).completedTask.exec (.trySetResult ()) ∧
      b.ran = (s.block c).ran ++ (s.block c).inputItems.innerCollection := by
  let p : Block Node Item σ ε := { s.block n with
    toComplete := cs, stateMutex := some ⟨caller, .finally none (some c) none⟩ }
  let b₁ : Block Node Item σ ε := { s.block c with
    startCallsCount := (s.block c).startCallsCount - 1
    completedBy := (s.block c).completedBy ++ [.block n]
    state := .stopping, stateMutex := some ⟨.block n, .cancel none⟩ }
  obtain ⟨q, st, hlocal⟩ := Block.exists_completed (N := N) (n := c) (b := b₁) hok rfl
    hc.still.critical htoken (.inl hleaf) (.inr hp)
  let b₂ : Block Node Item σ ε := { b₁ with
    state := .stopped, stateMutex := some ⟨.block n, .finally none none none⟩
    completedTask := b₁.completedTask.exec (.trySetResult ())
    processingTask := .finished (.ok ()), inputItems := q
    ran := b₁.ran ++ b₁.inputItems.innerCollection, nodeState := st }
  have hcall : s.advance n = some ((s.set n p).set c b₁) := by
    have hadvance : (s.block n).advance = some (p, .complete c none) := by
      simp only [Block.advance, hm, htodo]
      rfl
    have hcomplete : ((s.set n p).block c).completeCommon (.block n) none =
        some (b₁, .inside) := by
      rw [set_block_of_ne _ _ hcn]
      simp [Block.completeCommon, hc.stateMutex, hc.started, hcount, b₁]
    simp only [advance, hadvance, completeCommon, hcomplete, Option.map_some, reply]
  have hrun : (dataflowMachine N).Reaches (UserDriven root) ((s.set n p).set c b₁)
      ((s.set n p).set c b₂) := by
    rw [← set_set (s.set n p) c b₁ b₂]
    refine reaches_local (s := (s.set n p).set c b₁) ht ?_
    rw [set_block_self]
    exact hlocal
  have hreturn : ((s.set n p).set c b₂).advance c =
      some ((s.set c { b₂ with stateMutex := none }).set n
        { s.block n with toComplete := cs }) := by
    have hadvance : b₂.advance = some ({ b₂ with stateMutex := none },
        .reply (.returned (.block n))) := by
      simp only [Block.advance, b₂, b₁, hend]
    simp only [advance, set_block_self, hadvance, set_set, reply, set_block_of_ne _ _ hcn.symm]
    rw [set_comm _ hcn, set_set]
    simp only [p, Option.map_some, Activation.resumed, hm]
  refine ⟨{ b₂ with stateMutex := none }, ?_, rfl, rfl⟩
  exact (Machine.Reaches.single (a := .advance n) trivial (step_advance ht hcall)).trans
    (hrun.tail (a := .advance c) trivial (step_advance ht hreturn))

end Dataflow

end AsyncCpp.DataFlow
