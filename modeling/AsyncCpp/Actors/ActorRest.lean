import AsyncCpp.Actors.ActorProgress
import AsyncCpp.AsyncPrimitives.CollectionRest
import AsyncCpp.DataFlow.QueueCalls
import AsyncCpp.Lib.Simulation

/-!
# An actor comes to rest

Every step that the threads of an actor take without new calls lowers `Dataflow.todo`: an item is
run once, the processing task leaves its loop when the token is cancelled, and the thread that
completes the block has nobody to notify. So a bounded number of them follows one another, and
together with `progress` every accepted item is run.

Results:
* `Block.process_todo`, `Block.advance_todo`, `Block.acceptInputAsync_todo`: the steps of a block.
* `length_le_todo`: a run without new calls is not longer than `todo`.
-/

namespace AsyncCpp.DataFlow

open Interleaving Tasks AsyncPrimitives

variable {Node Item σ ε : Type*}

/-! ## The token -/

/-- The processing task is woken without an item only when its token is cancelled. -/
theorem closed_canceledInv (N : Network Node Item σ ε) :
    Closed N (fun _ _ => True)
      fun _ (b : Block Node Item σ ε) => QueueUse b ∧ CanceledInv b.inputItems where
  start h hs := ⟨h.1.start hs, by rw [(Block.start_eq hs).1]; exact h.2⟩
  completeCommon h hs :=
    ⟨h.1.completeCommon hs, by rw [Block.completeCommon_eq hs]; exact h.2⟩
  advance {n b b' r} h hs := by
    refine ⟨h.1.advance hs, ?_⟩
    rcases (Block.advance_eq hs).2 with hq | ⟨a, -, hq⟩
    · rw [hq]
      exact h.2
    · exact h.2.step h.1.semaphore h.1.cancel hq
  resumed {n b} h := ⟨(QueueUse.closed N).resumed (n := n) h.1, h.2⟩
  throwing {n b caller calling e} h hm := ⟨(QueueUse.closed N).throwing (n := n) h.1 hm, h.2⟩
  process {n b b'} h hs := by
    refine ⟨h.1.process hs, ?_⟩
    cases Block.process_cases hs with
    | take hp hq | waiting hp hq | drained hp hq =>
      exact h.2.step h.1.semaphore h.1.cancel hq
    | resume hp ho hq => exact h.2.step h.1.semaphore h.1.cancel hq
    | _ => exact h.2
  asked {n b y c ask offer rest offer'} h hp ho :=
    ⟨(QueueUse.closed N).asked (n := n) h.1 hp ho, h.2⟩
  offered {n b y phase c offer rest phase'} h hp :=
    ⟨(QueueUse.closed N).offered (n := n) h.1 hp, h.2⟩
  accept {n b x phase b' phase'} h _ hs := by
    refine ⟨h.1.accept hs, ?_⟩
    cases Block.acceptInputAsync_cases hs with
    | started | notStarted => exact h.2
    | push hq | full hq | release hq | releasing hq =>
      exact h.2.step h.1.semaphore h.1.cancel hq
  faultThread {n b} h := ⟨(QueueUse.closed N).faultThread (n := n) h.1, h.2⟩

theorem reachable_canceledInv [DecidableEq Node] {N : Network Node Item σ ε}
    {G : Dataflow Node Item σ ε → DataflowLabel Node Item ε → Prop} {s : Dataflow Node Item σ ε}
    (h : (dataflowMachine N).Reachable G s) (n : Node) :
    QueueUse (s.block n) ∧ CanceledInv (s.block n).inputItems :=
  reachable_closed (closed_canceledInv N)
    (fun _ => ⟨.init rfl rfl rfl, .init⟩)
    (fun _ _ _ _ _ _ _ => trivial) h n

/-! ## The steps left -/

/-- The `while` loop of the processing task: one more `TakeAsync`, or the way out of it. -/
def loopTodo (t : AsyncSemaphore Unit ε) : ℕ := if (t.token ()).isCanceled then 2 else 19

/-- What follows on the item in hand. -/
def restTodo (q : AsyncCollection Unit (QueueItem Node Item) ε) :
    Option (List (QueueItem Node Item)) → ℕ
  | none => loopTodo q.asyncSemaphore
  | some xs => 9 * xs.length

/-- The steps left to the processing task with the items it has in hand. -/
def Processing.todo (q : AsyncCollection Unit (QueueItem Node Item) ε) :
    Processing Node Item ε → ℕ
  | .initial | .finished _ => 0
  | .awaitStart => 20
  | .loop => loopTodo q.asyncSemaphore
  | .taking i =>
    match q.outcome i with
    | none => 10
    | some (.ok _) => 10 + loopTodo q.asyncSemaphore
    | some (.error _) => 9
  | .invoke _ rest => 9 + restTodo q rest
  | .asking _ _ _ rest => 2 + restTodo q rest
  | .offering _ _ _ rest => 1 + restTodo q rest
  | .drain => 1
  | .failed _ => 8

/-- The steps left to a call of `AcceptInputAsync`; the item it adds counts 20. -/
def AcceptPhase.todo : AcceptPhase ε → ℕ
  | .throwIfNotStarted => 24
  | .push => 23
  | .release => 2
  | .releasing => 1
  | .returned | .threw _ => 0

/-- The steps left to the thread that holds `_stateMutex`, where the block has no next blocks. -/
def Section.todo : Section Node ε → ℕ
  | .cancel _ => 6
  | .canceling _ => 3
  | .wait _ => 2
  | .starting _ | .finally _ _ _ | .throwing _ => 1

def Block.sectionTodo (b : Block Node Item σ ε) : ℕ :=
  match b.stateMutex with
  | none => 0
  | some a => a.section_.todo

/-- The steps left to the detached thread that calls `SetFaulted`. -/
def faultTodo (f : Option (Exn ε)) : ℕ := if f.isSome then 7 else 0

/-- The steps left in the queue and to the processing task. -/
def queueTodo (q : AsyncCollection Unit (QueueItem Node Item) ε) (p : Processing Node Item ε) : ℕ :=
  q.asyncSemaphore.todo + 20 * q.innerCollection.length + p.todo q

def Block.todo (b : Block Node Item σ ε) : ℕ :=
  queueTodo b.inputItems b.processingTask + b.sectionTodo + faultTodo b.faultThread

section Queue

variable {q q' : AsyncCollection Unit (QueueItem Node Item) ε}

theorem loopTodo_le (t : AsyncSemaphore Unit ε) : loopTodo t ≤ 19 := by
  unfold loopTodo
  split_ifs <;> omega

theorem faultTodo_le (f : Option (Exn ε)) : faultTodo f ≤ 7 := by
  unfold faultTodo
  split_ifs <;> omega

theorem todo_next (rest : Option (List (QueueItem Node Item))) :
    (Processing.next rest : Processing Node Item ε).todo q = restTodo q rest := by
  rcases rest with _ | _ | ⟨x, xs⟩
  · rfl
  · rfl
  · simp only [Processing.next, Processing.todo, restTodo, List.length_cons]
    omega

/-- A step of the queue in which no `TakeAsync` begins or ends leaves less to the processing
    task. -/
theorem todo_of_step {a : CollectionLabel Unit (QueueItem Node Item)} (hs : q.step a = some q')
    (ha : a.takes = false) (p : Processing Node Item ε) : p.todo q' ≤ p.todo q := by
  have hout := (AsyncCollection.step_calling hs ha).2.2
  have hloop : loopTodo q'.asyncSemaphore ≤ loopTodo q.asyncSemaphore := by
    by_cases hc : (q.asyncSemaphore.token ()).isCanceled
    · obtain ⟨k, hk⟩ := CanceledInv.canceled_step hs ⟨(), hc⟩
      rw [loopTodo, loopTodo, if_pos hc, if_pos hk]
    · rw [loopTodo.eq_1 q.asyncSemaphore, if_neg hc]
      exact loopTodo_le q'.asyncSemaphore
  have hrest : ∀ rest, restTodo q' rest ≤ restTodo q rest := by
    rintro (_ | xs)
    · exact hloop
    · exact le_rfl
  cases p with
  | taking i =>
    simp only [Processing.todo, hout]
    split <;> omega
  | invoke x rest | asking y ask offer rest | offering y phase offer rest =>
    have := hrest rest
    simp only [Processing.todo]
    omega
  | loop => exact hloop
  | initial | awaitStart | drain | failed | finished => exact le_rfl

/-- A call other than `Add` and `TakeAsync`. -/
theorem queueTodo_le {a : CollectionLabel Unit (QueueItem Node Item)} (hs : q.step a = some q')
    (ha : a.takes = false) (hquiet : a.isQuiet) (p : Processing Node Item ε) :
    queueTodo q' p ≤ queueTodo q p + a.adds := by
  have htask := todo_of_step hs ha p
  have hsem := AsyncCollection.step_todo hs
  have hitems : q'.innerCollection = q.innerCollection := by
    rw [(AsyncCollection.step_of_isQuiet hquiet hs).1]
  unfold queueTodo
  rw [hitems]
  omega

/-- The holder of `_waitersLock`, or the thread in `Cancel`, goes on. -/
theorem queueTodo_lt {a : CollectionLabel Unit (QueueItem Node Item)} (hs : q.step a = some q')
    (ha : a = .advance ∨ a = .runCancel ()) (p : Processing Node Item ε) :
    queueTodo q' p < queueTodo q p := by
  have hquiet : a.isQuiet ∧ a.takes = false := by rcases ha with rfl | rfl <;> exact ⟨rfl, rfl⟩
  have htask := todo_of_step hs hquiet.2 p
  have hsem := AsyncCollection.step_todo_lt hs ha
  have hitems : q'.innerCollection = q.innerCollection := by
    rw [(AsyncCollection.step_of_isQuiet hquiet.1 hs).1]
  unfold queueTodo
  rw [hitems]
  omega

/-- `Add` puts its item into the queue. -/
theorem queueTodo_push {x : QueueItem Node Item} (hs : q.step (.push x) = some q')
    (p : Processing Node Item ε) : queueTodo q' p ≤ queueTodo q p + 20 := by
  have htask := todo_of_step hs rfl p
  cases hs
  simp only [queueTodo, List.length_append, List.length_singleton]
  omega

end Queue

/-! ## The steps of a block -/

namespace Block

variable {N : Network Node Item σ ε} {n : Node} {b b' : Block Node Item σ ε}

/-- The processing task calls `TakeAsync` while its token is not cancelled. -/
theorem loopTodo_of_take {i : ℕ} (hs : b.process N n = some b') (hp : b.processingTask = .loop)
    (hp' : b'.processingTask = .taking i) : loopTodo b.inputItems.asyncSemaphore = 19 := by
  have hc : ¬ (b.inputItems.asyncSemaphore.token ()).isCanceled := by
    intro hc
    simp only [process, hp, if_pos hc] at hs
    cases hs
    cases hp'
  rw [loopTodo, if_neg hc]

/-- A `TakeAsync` that was cancelled sends the processing task out of its loop. -/
theorem loopTodo_of_canceled {q : AsyncCollection Unit (QueueItem Node Item) ε}
    (h : CanceledInv q) {i : ℕ} (ho : q.outcome i = some (.error .operationCanceled)) :
    loopTodo q.asyncSemaphore = 2 := by
  obtain ⟨k, hk⟩ := h.outcome i ho
  rw [loopTodo, if_pos hk]

/-- The processing task goes on. -/
theorem process_todo (hu : QueueUse b) (hc : CanceledInv b.inputItems)
    (hs : b.process N n = some b') : b'.todo < b.todo := by
  have hloop := loopTodo_le b.inputItems.asyncSemaphore
  cases Block.process_cases hs with
  | started hp =>
    simp only [Block.todo, sectionTodo, queueTodo, hp, Processing.todo]
    omega
  | canceled hp hcanceled =>
    simp only [Block.todo, sectionTodo, queueTodo, hp, Processing.todo, loopTodo, if_pos hcanceled]
    omega
  | @take q hp hq =>
    have hloop := loopTodo_of_take hs hp rfl
    have hsem := AsyncCollection.step_todo hq
    have hfresh := hu.fresh _ le_rfl
    obtain ⟨t, -, rfl⟩ := AsyncCollection.semaphoreStep_cases hq
    simp only [CollectionLabel.adds] at hsem
    simp only [Block.todo, sectionTodo, queueTodo, hp, Processing.todo, hfresh, hloop]
    omega
  | waiting hp hq =>
    have hlt := queueTodo_lt hq (.inl rfl) b.processingTask
    simp only [Block.todo, sectionTodo]
    omega
  | @resume i q hp ho hq =>
    obtain ⟨x, xs, hx, rfl⟩ | ⟨e, rfl⟩ := AsyncCollection.resume_cases hq
    · simp only [Block.todo, sectionTodo, queueTodo, hp, ho, hx, Processing.todo,
        Function.update_self, List.length_cons]
      omega
    · simp only [Block.todo, sectionTodo, queueTodo, hp, ho, Processing.todo, Function.update_self]
      omega
  | took hp ho =>
    simp only [Block.todo, sectionTodo, queueTodo, hp, ho, Processing.todo, restTodo]
    omega
  | retry hp ho =>
    simp only [Block.todo, sectionTodo, queueTodo, hp, ho, Processing.todo,
      loopTodo_of_canceled hc ho]
    omega
  | takeFailed hp ho =>
    simp only [Block.todo, sectionTodo, queueTodo, hp, ho, Processing.todo]
    omega
  | invoked hp | threw hp | asked hp =>
    simp only [Block.todo, sectionTodo, queueTodo, hp, Processing.todo]
    omega
  | propagated hp =>
    simp only [Block.todo, sectionTodo, queueTodo, hp, todo_next]
    simp only [Processing.todo]
    omega
  | drained hp hq =>
    cases hq
    simp only [Block.todo, sectionTodo, queueTodo, hp, AsyncCollection.tryTakeAll, todo_next,
      restTodo]
    simp only [Processing.todo, List.length_nil]
    omega
  | @reported e hp =>
    have hfault := faultTodo_le (if e.isStdException then some e else b.faultThread)
    simp only [Block.todo, sectionTodo, queueTodo, hp, Processing.todo]
    omega

/-- `Release()` has returned, or goes on. -/
theorem afterRelease_todo (q : AsyncCollection Unit (QueueItem Node Item) ε) :
    (AcceptPhase.afterRelease q : AcceptPhase ε).todo ≤ 1 := by
  unfold AcceptPhase.afterRelease
  split_ifs
  · exact Nat.zero_le _
  · exact le_rfl

/-- A call of `AcceptInputAsync` goes on. -/
theorem acceptInputAsync_todo {x : QueueItem Node Item} {phase phase' : AcceptPhase ε}
    (hs : b.acceptInputAsync x phase = some (b', phase')) :
    b'.todo + phase'.todo < b.todo + phase.todo := by
  cases Block.acceptInputAsync_cases hs with
  | started | notStarted =>
    simp only [AcceptPhase.todo]
    omega
  | push hq =>
    have hle := queueTodo_push hq b.processingTask
    simp only [Block.todo, sectionTodo]
    show _ + 2 < _ + 23
    omega
  | full hq =>
    have hle := queueTodo_le hq rfl rfl b.processingTask
    simp only [CollectionLabel.adds] at hle
    simp only [Block.todo, sectionTodo]
    show _ + 0 < _ + 2
    omega
  | @release q hq =>
    have hle := queueTodo_le hq rfl rfl b.processingTask
    have hafter := afterRelease_todo q
    simp only [CollectionLabel.adds] at hle
    simp only [Block.todo, sectionTodo]
    show _ + _ < _ + 2
    omega
  | @releasing q hq =>
    have hlt := queueTodo_lt hq (.inl rfl) b.processingTask
    have hafter := afterRelease_todo q
    simp only [Block.todo, sectionTodo]
    show _ + _ < _ + 1
    omega

/-- The thread that holds `_stateMutex` goes on without a call of a next block. -/
theorem advance_todo {r : Reply Node ε} (hs : b.advance = some (b', .reply r)) :
    b'.todo < b.todo := by
  cases Block.advance_cases hs with
  | opened hm | finished hm | rethrown hm | throwing hm | canceled hm =>
    simp only [Block.todo, sectionTodo, hm, Section.todo]
    omega
  | @waited caller e r hm =>
    cases r <;>
      · simp only [Block.todo, sectionTodo, Block.waited, hm, Section.todo]
        omega
  | cancel hm hq =>
    have hle := queueTodo_le hq rfl rfl b.processingTask
    simp only [CollectionLabel.adds] at hle
    simp only [Block.todo, sectionTodo, hm, Section.todo]
    omega
  | runCancel hm hq =>
    have hlt := queueTodo_lt hq (.inr rfl) b.processingTask
    simp only [Block.todo, sectionTodo]
    omega

/-- `Complete` or `SetFaulted` is called. -/
theorem completeCommon_todo {caller : Caller Node} {e : Option (Exn ε)} {r : Reply Node ε}
    (hs : b.completeCommon caller e = some (b', r)) : b'.todo ≤ b.todo + 6 := by
  unfold completeCommon at hs
  split at hs
  · cases hs
  · simp only at hs
    split_ifs at hs
    · cases hs
      exact Nat.le_add_right ..
    · split at hs <;> cases hs
      · exact Nat.le_add_right ..
      · exact Nat.le_add_right ..
      · simp only [Block.todo, sectionTodo, Section.todo]
        omega

end Block

/-! ## The steps of an actor -/

/-- The steps left to a call of the user. -/
def callTodo : Option (AcceptCall Node Item ε) → ℕ
  | none => 0
  | some c => c.phase.todo

namespace Dataflow

variable {N : Network Unit Item σ ε} {s s' : Dataflow Unit Item σ ε}

/-- The steps left to the threads of a network of one block. -/
def todo (s : Dataflow Unit Item σ ε) : ℕ :=
  (s.block ()).todo + ∑ k ∈ Finset.range s.calls, callTodo (s.call k)

theorem set_todo (s : Dataflow Unit Item σ ε) (n : Unit) (b : Block Unit Item σ ε) :
    (s.set n b).todo = b.todo + ∑ k ∈ Finset.range s.calls, callTodo (s.call k) := by
  unfold todo
  rw [show (s.set n b).block () = b from set_block_self s n b]
  rfl

/-- The caller goes on in its own critical section. -/
theorem resumed_todo (b : Block Unit Item σ ε) :
    Block.todo { b with stateMutex := b.stateMutex.map Activation.resumed } = b.todo := by
  rcases hm : b.stateMutex with _ | ⟨caller, sec⟩
  · simp only [Block.todo, Block.sectionTodo, hm, Option.map_none]
  · cases sec <;> simp [Block.todo, Block.sectionTodo, hm, Activation.resumed, Section.todo]

theorem reply_todo (s : Dataflow Unit Item σ ε) (r : Reply Unit ε) : (s.reply r).todo ≤ s.todo := by
  cases r with
  | inside => exact le_rfl
  | returned caller =>
    cases caller with
    | user | faultThread => exact le_rfl
    | block p =>
      simp only [reply, set_todo, resumed_todo]
      exact le_rfl
  | threw e caller =>
    cases caller with
    | user | faultThread => exact le_rfl
    | block p =>
      simp only [reply]
      split
      · rename_i caller calling hm
        rw [set_todo]
        refine Nat.add_le_add_right ?_ _
        have hm' : (s.block ()).stateMutex = some ⟨caller, .starting calling⟩ := hm
        simp only [Block.todo, Block.sectionTodo, hm', Section.todo]
        exact le_rfl
      · exact le_rfl

/-- The block moves. -/
theorem todo_of_block {b : Block Unit Item σ ε} (hb : b.todo < (s.block ()).todo) {n : Unit}
    (r : Reply Unit ε) : ((s.set n b).reply r).todo < s.todo := by
  refine (reply_todo _ r).trans_lt ?_
  rw [set_todo]
  exact Nat.add_lt_add_right hb _

/-- The thread that holds `_stateMutex` goes on: it calls no other block, and its own is locked. -/
theorem advance_todo {n : Unit} (hs : s.advance n = some s') : s'.todo < s.todo := by
  unfold advance at hs
  split at hs
  · cases hs
  · rename_i b r hb
    cases hs
    exact todo_of_block (Block.advance_todo hb) r
  · rename_i b c hb
    obtain ⟨⟨b', r⟩, hstart, -⟩ := Option.map_eq_some_iff.mp hs
    obtain rfl : c = n := rfl
    rw [set_block_self] at hstart
    cases Block.advance_cases hb
    cases hstart
  · rename_i b c e hb
    obtain ⟨⟨b', r⟩, hcomplete, -⟩ := Option.map_eq_some_iff.mp hs
    obtain rfl : c = n := rfl
    rw [set_block_self] at hcomplete
    cases Block.advance_cases hb
    cases hcomplete

/-- The detached thread calls `SetFaulted`. -/
theorem runFaultThread_todo {n : Unit} {e : Exn ε} (he : (s.block n).faultThread = some e)
    (hs : (s.set n { s.block n with faultThread := none }).completeCommon n .faultThread (some e) =
      some s') : s'.todo < s.todo := by
  obtain rfl : n = () := rfl
  obtain ⟨⟨b, r⟩, hb, rfl⟩ := Option.map_eq_some_iff.mp hs
  rw [set_block_self] at hb
  have hle := Block.completeCommon_todo hb
  refine (reply_todo _ r).trans_lt ?_
  rw [set_todo]
  refine Nat.add_lt_add_right ?_ _
  simp only [Block.todo, Block.sectionTodo, faultTodo, he, Option.isSome_some, if_true,
    Option.isSome_none, Bool.false_eq_true, if_false] at hle ⊢
  omega

/-- A call of the user goes on. -/
theorem runCall_todo (hcalls : s.CallInv) {k : ℕ} (hs : s.runCall k = some s') :
    s'.todo < s.todo := by
  obtain ⟨c, b, phase, hc, hb, rfl⟩ := runCall_cases hs
  have hlt : b.todo + phase.todo < (s.block ()).todo + c.phase.todo :=
    Block.acceptInputAsync_todo hb
  have hsum := sum_update callTodo s.call (Finset.mem_range.mpr (hcalls.lt_calls hc))
    (some { c with phase := phase })
  have hold : callTodo (s.call k) = c.phase.todo := by
    rw [hc]
    rfl
  have hnew : callTodo (some { c with phase := phase }) = phase.todo := rfl
  have hblock : (s.set c.node b).block () = b := set_block_self s c.node b
  unfold todo
  simp only [hblock]
  show b.todo + ∑ j ∈ Finset.range s.calls, callTodo (Function.update s.call k _ j) < _
  omega

end Dataflow

end AsyncCpp.DataFlow

namespace AsyncCpp.Actors

open Interleaving DataFlow

variable {Item σ ε : Type*} {N : Network Unit Item σ ε}
  {G : Dataflow Unit Item σ ε → DataflowLabel Unit Item ε → Prop} {s s' : Dataflow Unit Item σ ε}

/-- A thread goes on. -/
theorem todo_step (hleaf : N.outputNodes () = []) (h : (dataflowMachine N).Reachable G s)
    {a : DataflowLabel Unit Item ε} (ha : a.isCall = false) (hs : s.step N a = some s') :
    s'.todo < s.todo := by
  unfold Dataflow.step at hs
  split_ifs at hs
  cases a with
  | start n | complete n | setFaulted n e | acceptInputAsync n item => cases ha
  | runCall k => exact Dataflow.runCall_todo (reachable_callInv h) hs
  | advance n => exact Dataflow.advance_todo hs
  | process n =>
    obtain ⟨hu, hc⟩ := reachable_canceledInv h ()
    obtain ⟨b, hb, rfl⟩ := process_block (reachable_workInv h ()) hleaf hs
    exact Dataflow.todo_of_block (Block.process_todo hu hc hb) .inside
  | runFaultThread n =>
    simp only at hs
    split at hs
    · cases hs
    · exact Dataflow.runFaultThread_todo ‹_› hs

/-- A run without new calls comes to an end. -/
theorem length_le_todo (hleaf : N.outputNodes () = []) (h : (dataflowMachine N).Reachable G s)
    {as : List (DataflowLabel Unit Item ε)} (hown : ∀ a ∈ as, a.isCall = false)
    (hrun : (dataflowMachine N).run s as = some s') : as.length ≤ s.todo := by
  have hle : as.length + s'.todo ≤ s.todo :=
    Machine.length_add_le (M := dataflowMachine N) (I := (dataflowMachine N).Reachable Machine.Any)
      (μ := Dataflow.todo) (fun _ _ _ hr _ hs => hr.step trivial hs)
      (fun _ _ _ hr ha hs => todo_step hleaf hr ha hs) (h.mono fun _ _ _ => trivial) hown hrun
  omega

end AsyncCpp.Actors
