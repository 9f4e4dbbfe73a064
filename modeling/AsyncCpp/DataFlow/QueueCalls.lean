import AsyncCpp.AsyncPrimitives.SemaphoreCancellation
import AsyncCpp.DataFlow.StartComplete
import Mathlib.Data.Set.Card

/-!
# Who is inside the input queue

The thread that holds `_waitersLock` of an input queue is the processing task of the block, in
its `TakeAsync`, or one that is in a call of `AcceptInputAsync` of the block: a call of the user,
or the processing task of a block that is connected to it. So nobody is left inside the queue
without being able to go on.

Results:
* `QueueUse.closed`: what is known of the queue of a block, its token and its processing task.
* `CallersInv.step`: every item that was pushed is one whose `Release()` is still to come, or
  has come, and at most one thread is inside a `Release()`.
-/

namespace AsyncCpp.DataFlow

open Interleaving Tasks AsyncPrimitives

variable {Node Item σ ε : Type*}

/-! ## The block and its queue -/

/-- The processing task is in every call of `TakeAsync` that is inside `_waitersLock`, and the
    thread that completes the block has cancelled the token. -/
structure QueueUse (b : Block Node Item σ ε) : Prop where
  semaphore : SemaphoreInv b.inputItems.asyncSemaphore
  cancel : CancelInv b.inputItems.asyncSemaphore
  fresh : ∀ i, b.inputItems.asyncSemaphore.issued ≤ i → b.inputItems.outcome i = none
  waiting : ∀ i ∈ b.inputItems.asyncSemaphore.critical.calling,
    b.processingTask = .taking i ∧ b.inputItems.outcome i = none
  taking : ∀ i, b.processingTask = .taking i → i < b.inputItems.asyncSemaphore.issued
  canceling : ∀ caller e, b.stateMutex = some ⟨caller, .canceling e⟩ →
    (b.inputItems.asyncSemaphore.token ()).isCanceled
  wait : ∀ caller e, b.stateMutex = some ⟨caller, .wait e⟩ →
    (b.inputItems.asyncSemaphore.token ()).isCanceled ∧
      b.inputItems.asyncSemaphore.canceling () = .idle

namespace QueueUse

variable {N : Network Node Item σ ε} {n : Node} {b b' : Block Node Item σ ε}

/-- The section moves on to one that is not at the token. -/
theorem relock (h : QueueUse b) (hq : b'.inputItems = b.inputItems)
    (hp : ∀ i, b.processingTask = .taking i ↔ b'.processingTask = .taking i)
    (hc : ∀ caller e, b'.stateMutex = some ⟨caller, .canceling e⟩ → b'.stateMutex = b.stateMutex)
    (hw : ∀ caller e, b'.stateMutex = some ⟨caller, .wait e⟩ → b'.stateMutex = b.stateMutex) :
    QueueUse b' := by
  refine ⟨hq ▸ h.semaphore, hq ▸ h.cancel, hq ▸ h.fresh, ?_, ?_, ?_, ?_⟩ <;> rw [hq]
  · exact fun i hi => (h.waiting i hi).imp_left (hp i).mp
  · exact fun i hi => h.taking i ((hp i).mpr hi)
  · intro caller e hm
    exact h.canceling caller e ((hc caller e hm).symm.trans hm)
  · intro caller e hm
    exact h.wait caller e ((hw caller e hm).symm.trans hm)

/-- The queue takes a step in which nobody enters or leaves `TakeAsync` and nothing is
    cancelled. -/
theorem queue_step (h : QueueUse b) {a : CollectionLabel Unit (QueueItem Node Item)}
    (hs : b.inputItems.step a = some b'.inputItems) (ha : a.takes = false)
    (hc : ∀ k, a ≠ .cancel k) (hr : ∀ k, a ≠ .runCancel k)
    (hp : b'.processingTask = b.processingTask) (hm : b'.stateMutex = b.stateMutex) :
    QueueUse b' := by
  obtain ⟨hcall, hissued, hout⟩ := AsyncCollection.step_calling hs ha
  have htoken := AsyncCollection.step_isCanceled hc hs ()
  have hcanceling := AsyncCollection.step_canceling hs hc hr
  refine ⟨AsyncCollection.step_semaphoreInv h.semaphore hs,
    AsyncCollection.step_cancelInv h.cancel h.semaphore ?_ hs, ?_, ?_, ?_, ?_, ?_⟩
  · rintro rfl
    cases ha
  · rw [hissued, hout]
    exact h.fresh
  · rw [hp, hout]
    exact fun i hi => h.waiting i (hcall i hi)
  · rw [hp, hissued]
    exact h.taking
  · rw [hm, htoken]
    exact h.canceling
  · rw [hm, htoken, hcanceling]
    exact h.wait

theorem start (h : QueueUse b) {caller : Caller Node} {r : Reply Node ε}
    (hs : b.start caller = some (b', r)) : QueueUse b' := by
  unfold Block.start at hs
  split at hs
  · cases hs
  · simp only at hs
    split at hs
    · cases hs
      exact h.relock rfl (fun _ => Iff.rfl) (fun _ _ _ => rfl) fun _ _ _ => rfl
    · rename_i hp
      cases hs
      refine h.relock rfl (fun i => ⟨fun hi => ?_, nofun⟩) nofun nofun
      cases hp.symm.trans hi
    · cases hs
      exact h.relock rfl (fun _ => Iff.rfl) nofun nofun
    · cases hs
      exact h.relock rfl (fun _ => Iff.rfl) (fun _ _ _ => rfl) fun _ _ _ => rfl

theorem completeCommon (h : QueueUse b) {caller : Caller Node} {e : Option (Exn ε)}
    {r : Reply Node ε} (hs : b.completeCommon caller e = some (b', r)) : QueueUse b' := by
  unfold Block.completeCommon at hs
  split at hs
  · cases hs
  · simp only at hs
    split_ifs at hs
    · cases hs
      exact h.relock rfl (fun _ => Iff.rfl) (fun _ _ _ => rfl) fun _ _ _ => rfl
    · split at hs
      · cases hs
        exact h.relock rfl (fun _ => Iff.rfl) (fun _ _ _ => rfl) fun _ _ _ => rfl
      · cases hs
        exact h.relock rfl (fun _ => Iff.rfl) (fun _ _ _ => rfl) fun _ _ _ => rfl
      · cases hs
        exact h.relock rfl (fun _ => Iff.rfl) nofun nofun

/-- `Cancel` is called, or goes on. -/
theorem cancelStep (h : QueueUse b) {a : CollectionLabel Unit (QueueItem Node Item)}
    {q : AsyncCollection Unit (QueueItem Node Item) ε} (ha : a = .cancel () ∨ a = .runCancel ())
    (hs : b.inputItems.step a = some q) {caller : Caller Node} {e : Option (Exn ε)}
    (htoken : (q.asyncSemaphore.token ()).isCanceled) :
    QueueUse { b with inputItems := q, stateMutex := some ⟨caller, .canceling e⟩ } := by
  have htakes : a.takes = false := by rcases ha with rfl | rfl <;> rfl
  obtain ⟨hcall, hissued, hout⟩ := AsyncCollection.step_calling hs htakes
  refine ⟨AsyncCollection.step_semaphoreInv h.semaphore hs,
    AsyncCollection.step_cancelInv h.cancel h.semaphore ?_ hs, fun i hi => ?_, fun i hi => ?_,
    fun i hi => ?_, fun _ _ _ => htoken, nofun⟩
  · rintro rfl
    cases htakes
  · rw [hout]
    exact h.fresh i (hissued ▸ hi)
  · rw [hout]
    exact h.waiting i (hcall i hi)
  · rw [hissued]
    exact h.taking i hi

theorem advance (h : QueueUse b) {r : NextCall Node ε} (hs : b.advance = some (b', r)) :
    QueueUse b' := by
  unfold Block.advance at hs
  split at hs
  · cases hs
  · split at hs <;> cases hs <;> exact h.relock rfl (fun _ => Iff.rfl) (by simp) (by simp)
  · simp only [Option.map_eq_some_iff] at hs
    obtain ⟨q, hq, hs⟩ := hs
    cases hs
    refine h.cancelStep (.inl rfl) hq ?_
    obtain ⟨t, ht, rfl⟩ := AsyncCollection.semaphoreStep_cases hq
    simp only [AsyncSemaphore.step] at ht
    split_ifs at ht with hc
    · cases ht
      exact hc
    · cases ht
      simp
  · rename_i caller e hm
    split at hs
    · rename_i hidle
      cases hs
      refine ⟨h.semaphore, h.cancel, h.fresh, h.waiting, h.taking, by simp, fun _ _ _ => ?_⟩
      exact ⟨h.canceling caller e hm, hidle⟩
    · simp only [Option.map_eq_some_iff] at hs
      obtain ⟨q, hq, hs⟩ := hs
      cases hs
      have hcanceled := h.canceling caller e hm
      rw [← AsyncCollection.step_isCanceled (by simp) hq] at hcanceled
      have hnext : QueueUse { b with
          inputItems := q, stateMutex := some ⟨caller, .canceling e⟩ } :=
        h.cancelStep (.inr rfl) hq hcanceled
      exact ⟨hnext.semaphore, hnext.cancel, hnext.fresh, hnext.waiting, hnext.taking,
        fun _ _ _ => hcanceled, fun _ _ hw => by cases hm.symm.trans hw⟩
  · simp only [Option.map_eq_some_iff] at hs
    obtain ⟨r, hr, hs⟩ := hs
    cases hs
    cases r <;>
      exact h.relock rfl (fun _ => Iff.rfl) (fun _ _ hm => by cases hm) fun _ _ hm => by cases hm
  · split at hs <;> cases hs <;> exact h.relock rfl (fun _ => Iff.rfl) (by simp) (by simp)
  · cases hs
    exact h.relock rfl (fun _ => Iff.rfl) (by simp) (by simp)
  · cases hs
  · cases hs

/-- The processing task is in no `TakeAsync` before the step and after it. -/
theorem move (h : QueueUse b) (hq : b'.inputItems = b.inputItems)
    (hm : b'.stateMutex = b.stateMutex) (hp : ∀ i, b.processingTask ≠ .taking i)
    (hp' : ∀ i, b'.processingTask ≠ .taking i) : QueueUse b' :=
  h.relock hq (fun i => ⟨fun hi => absurd hi (hp i), fun hi => absurd hi (hp' i)⟩)
    (fun _ _ _ => hm) fun _ _ _ => hm

/-- `TakeAsync` is called. -/
theorem take (h : QueueUse b) {q : AsyncCollection Unit (QueueItem Node Item) ε}
    (hs : b.inputItems.step (.takeAsync (some ())) = some q) :
    QueueUse { b with
      inputItems := q, processingTask := .taking b.inputItems.asyncSemaphore.issued } := by
  have hissued := AsyncCollection.takeAsync_issued hs
  have htoken := AsyncCollection.step_isCanceled nofun hs ()
  have hcanceling := AsyncCollection.step_canceling hs nofun nofun
  have hsem := AsyncCollection.step_semaphoreInv h.semaphore hs
  have hcancel := AsyncCollection.step_cancelInv h.cancel h.semaphore (by simp) hs
  obtain ⟨t, ht, rfl⟩ := AsyncCollection.semaphoreStep_cases hs
  simp only [AsyncSemaphore.step] at ht
  split at ht <;> cases ht
  rename_i hc
  refine ⟨hsem, hcancel, fun i hi => h.fresh i ?_, fun i hi => ?_, fun i hi => ?_, ?_, ?_⟩
  · have hle : b.inputItems.asyncSemaphore.issued + 1 ≤ i := hissued ▸ hi
    omega
  · rw [(AsyncSemaphore.waitAsync_calling hc _).1 i hi]
    exact ⟨rfl, h.fresh _ le_rfl⟩
  · cases hi
    exact hissued ▸ Nat.lt_succ_self _
  · rw [htoken]
    exact h.canceling
  · rw [htoken, hcanceling]
    exact h.wait

/-- The `TakeAsync` is resumed. -/
theorem resume (h : QueueUse b) {i : ℕ} (hp : b.processingTask = .taking i)
    {q : AsyncCollection Unit (QueueItem Node Item) ε}
    (hs : b.inputItems.step (.resume i) = some q) : QueueUse { b with inputItems := q } := by
  have hout : i ∉ b.inputItems.asyncSemaphore.critical.calling := by
    simp only [AsyncCollection.step] at hs
    split_ifs at hs with hcond
    exact hcond.2.1
  have hcalling : ∀ j ∈ b.inputItems.asyncSemaphore.critical.calling, False := by
    intro j hj
    cases hp.symm.trans (h.waiting j hj).1
    exact hout hj
  have hfresh : ∀ r : Except (Exn ε) (QueueItem Node Item), ∀ j,
      b.inputItems.asyncSemaphore.issued ≤ j →
        Function.update b.inputItems.outcome i (some r) j = none := by
    intro r j hj
    have hlt := h.taking i hp
    rw [Function.update_of_ne (show j ≠ i by omega)]
    exact h.fresh j hj
  obtain ⟨x, xs, -, rfl⟩ | ⟨e, rfl⟩ := AsyncCollection.resume_cases hs
  · exact ⟨h.semaphore, h.cancel, hfresh _, fun j hj => (hcalling j hj).elim, h.taking, h.canceling,
      h.wait⟩
  · exact ⟨h.semaphore, h.cancel, hfresh _, fun j hj => (hcalling j hj).elim, h.taking, h.canceling,
      h.wait⟩

/-- The processing task, in `TakeAsync` number `i` which has ended, leaves it. -/
theorem leave (h : QueueUse b) {i : ℕ} (hp : b.processingTask = .taking i)
    {r : Except (Exn ε) (QueueItem Node Item)} (ho : b.inputItems.outcome i = some r)
    {p : Processing Node Item ε} (hne : ∀ j, p ≠ .taking j) :
    QueueUse { b with processingTask := p } := by
  refine ⟨h.semaphore, h.cancel, h.fresh, fun j hj => ?_, fun j hj => absurd hj (hne j),
    h.canceling, h.wait⟩
  obtain ⟨hpj, hnone⟩ := h.waiting j hj
  cases hp.symm.trans hpj
  cases ho.symm.trans hnone

theorem next_ne_taking (rest : Option (List (QueueItem Node Item))) (i : ℕ) :
    (Processing.next rest : Processing Node Item ε) ≠ .taking i := by
  rcases rest with _ | _ | _ <;> nofun

theorem process (h : QueueUse b) (hs : b.process N n = some b') : QueueUse b' := by
  cases Block.process_cases hs with
  | take hp hq => exact h.take hq
  | waiting hp hq => exact h.queue_step hq rfl nofun nofun rfl rfl
  | resume hp ho hq => exact h.resume hp hq
  | took hp ho | retry hp ho | takeFailed hp ho he => exact h.leave hp ho nofun
  | started hp | canceled hp | invoked hp | threw hp | asked hp | reported hp =>
    exact h.move rfl rfl (by rw [hp]; nofun) nofun
  | propagated hp => exact h.move rfl rfl (by rw [hp]; nofun) (next_ne_taking _)
  | @drained q hp hq =>
    have hnext : QueueUse { b with inputItems := q } := h.queue_step hq rfl nofun nofun rfl rfl
    exact hnext.move rfl rfl (by rw [hp]; nofun) (next_ne_taking _)

theorem accept (h : QueueUse b) {x : QueueItem Node Item} {phase phase' : AcceptPhase ε}
    (hs : b.acceptInputAsync x phase = some (b', phase')) : QueueUse b' := by
  cases Block.acceptInputAsync_cases hs with
  | started | notStarted => exact h
  | push hq | full hq | release hq | releasing hq =>
    exact h.queue_step hq rfl nofun nofun rfl rfl

theorem closed (N : Network Node Item σ ε) :
    Closed N (fun _ _ => True) fun _ (b : Block Node Item σ ε) => QueueUse b where
  start h := h.start
  completeCommon h := h.completeCommon
  advance h := h.advance
  resumed {n b} h := by
    refine h.relock rfl (fun _ => Iff.rfl) (fun caller e hm => ?_) fun caller e hm => ?_
    all_goals
      obtain ⟨⟨caller', sec⟩, ha, hr⟩ := Option.map_eq_some_iff.mp hm
      cases sec <;> cases hr
      exact hm.trans ha.symm
  throwing h _ := h.relock rfl (fun _ => Iff.rfl) nofun nofun
  process h := h.process
  asked h hp _ := h.move rfl rfl (by rw [hp]; nofun) nofun
  offered {n b y phase c offer rest phase'} h hp := by
    refine h.move rfl rfl (by rw [hp]; nofun) fun i => ?_
    cases phase' with
    | threw e => exact next_ne_taking rest i
    | _ => nofun
  accept h _ := h.accept
  faultThread h := h.relock rfl (fun _ => Iff.rfl) (fun _ _ _ => rfl) fun _ _ _ => rfl

/-- Before anything has happened. -/
theorem init {b : Block Node Item σ ε} (hq : b.inputItems = {}) (hp : b.processingTask = .initial)
    (hm : b.stateMutex = none) : QueueUse b := by
  have h0 : AsyncSemaphore.construct intMax 0 = .ok b.inputItems.asyncSemaphore := by
    rw [hq]
    rfl
  refine ⟨(construct_inv h0).1, ?_, ?_, ?_, ?_, ?_, ?_⟩ <;> rw [hq]
  · exact ⟨nofun, nofun, nofun, fun _ hne => absurd rfl hne, nofun, nofun⟩
  · exact fun _ _ => rfl
  · nofun
  · rw [hp]
    nofun
  · rw [hm]
    nofun
  · rw [hm]
    nofun

end QueueUse

/-! ## The callers -/

/-- The call is at its `Release()` or inside it. -/
def AcceptPhase.releases : AcceptPhase ε → Bool
  | .release | .releasing => true
  | .throwIfNotStarted | .push | .returned | .threw _ => false

/-- The call of `AcceptInputAsync` that the processing task is in, where it is at its `Release()`
    or inside it. -/
def Processing.releasing : Processing Node Item ε → Option (Node × Item × AcceptPhase ε)
  | .offering y phase (c :: _) _ => if phase.releases then some (c, y, phase) else none
  | _ => none

/-- What a block says about the calls at a `Release()`: its own call, the pushes of its queue
    that wait for theirs, and whether one is inside. -/
def Block.releases (b : Block Node Item σ ε) : Option (Node × Item × AcceptPhase ε) × ℕ × Bool :=
  (b.processingTask.releasing, b.inputItems.adding, b.inputItems.asyncSemaphore.critical.inRelease)

namespace Block

variable {N : Network Node Item σ ε} {n : Node} {b b' : Block Node Item σ ε}

theorem releasing_eq_some {p : Processing Node Item ε} {c : Node} {y : Item}
    {phase : AcceptPhase ε} : p.releasing = some (c, y, phase) ↔
      phase.releases ∧ ∃ offer rest, p = .offering y phase (c :: offer) rest := by
  constructor
  · intro h
    unfold Processing.releasing at h
    split at h
    · split_ifs at h with hphase
      cases h
      exact ⟨hphase, _, _, rfl⟩
    · cases h
  · rintro ⟨hphase, offer, rest, rfl⟩
    exact if_pos hphase

theorem next_releasing (rest : Option (List (QueueItem Node Item))) :
    (Processing.next rest : Processing Node Item ε).releasing = none := by
  rcases rest with _ | _ | _ <;> rfl

/-- A step of the queue that is not one of `AcceptInputAsync`. -/
theorem releases_of_queue {a : CollectionLabel Unit (QueueItem Node Item)}
    (hs : b.inputItems.step a = some b'.inputItems) (h1 : ∀ x, a ≠ .push x) (h2 : a ≠ .release)
    (h3 : a = .advance → ¬ b.inputItems.asyncSemaphore.critical.inRelease)
    (hp : b'.processingTask.releasing = b.processingTask.releasing) : b'.releases = b.releases := by
  unfold releases
  rw [hp, AsyncCollection.step_adding hs h1 h2,
    Bool.eq_iff_iff.mpr (AsyncCollection.step_inRelease_iff hs h2 h3)]

theorem start_releases {caller : Caller Node} {r : Reply Node ε}
    (hs : b.start caller = some (b', r)) : b'.releases = b.releases := by
  obtain ⟨heq, hp⟩ := start_eq hs
  have hproc : b'.processingTask.releasing = b.processingTask.releasing := by
    rcases hp with hp | ⟨hp, hp'⟩
    · rw [hp]
    · rw [hp, hp']
      rfl
  unfold releases
  rw [hproc, heq]

theorem completeCommon_releases {caller : Caller Node} {e : Option (Exn ε)} {r : Reply Node ε}
    (hs : b.completeCommon caller e = some (b', r)) : b'.releases = b.releases := by
  rw [completeCommon_eq hs]
  rfl

theorem advance_releases {r : NextCall Node ε} (hs : b.advance = some (b', r)) :
    b'.releases = b.releases := by
  obtain ⟨heq, hq | ⟨a, ha, hq⟩⟩ := advance_eq hs
  · unfold releases
    rw [hq, heq]
  · have hproc : b'.processingTask = b.processingTask := by rw [heq]
    rcases ha with rfl | rfl <;> exact releases_of_queue hq nofun nofun nofun (by rw [hproc])

theorem process_releases (hs : b.process N n = some b') : b'.releases = b.releases := by
  cases process_cases hs with
  | take hp hq =>
    exact releases_of_queue hq nofun nofun nofun (by rw [hp]; rfl)
  | drained hp hq =>
    exact releases_of_queue hq nofun nofun nofun (by rw [hp, next_releasing]; rfl)
  | resume hp ho hq => exact releases_of_queue hq nofun nofun nofun rfl
  | waiting hp hq hi =>
    refine releases_of_queue hq nofun nofun (fun _ hin => ?_) rfl
    cases hc : b.inputItems.asyncSemaphore.critical <;> rw [hc] at hi hin <;> cases hin <;> cases hi
  | asked hp =>
    rename_i offer _
    unfold releases
    rw [hp]
    cases offer <;> rfl
  | propagated hp =>
    unfold releases
    rw [hp, next_releasing]
    rfl
  | started hp | canceled hp | took hp | retry hp | takeFailed hp | invoked hp | threw hp
  | reported hp =>
    unfold releases
    rw [hp]
    rfl

end Block

/-- The calls of `AcceptInputAsync` of block `c` that are in `phase`. -/
def Dataflow.callsIn (s : Dataflow Node Item σ ε) (c : Node) (phase : AcceptPhase ε) :
    Set (DataflowLabel Node Item ε) :=
  {a | ∃ x, s.accepting a = some (c, x, phase)}

namespace Dataflow

variable {s s' : Dataflow Node Item σ ε} {c : Node} {phase : AcceptPhase ε}

theorem runCall_mem_callsIn {k : ℕ} :
    .runCall k ∈ s.callsIn c phase ↔ ∃ item, s.call k = some ⟨c, item, phase⟩ := by
  constructor
  · rintro ⟨x, hx⟩
    obtain ⟨⟨node, item, was⟩, hc, hx⟩ := Option.map_eq_some_iff.mp hx
    cases hx
    exact ⟨item, hc⟩
  · rintro ⟨item, hc⟩
    exact ⟨_, accepting_runCall hc⟩

theorem process_mem_callsIn {n : Node} (hphase : phase.releases) :
    .process n ∈ s.callsIn c phase ↔
      ∃ y, (s.block n).processingTask.releasing = some (c, y, phase) := by
  simp only [Block.releasing_eq_some]
  constructor
  · rintro ⟨x, hx⟩
    simp only [accepting] at hx
    split at hx
    · rename_i hp
      cases hx
      exact ⟨_, hphase, _, _, hp⟩
    · cases hx
  · rintro ⟨y, -, offer, rest, hp⟩
    exact ⟨_, accepting_process hp⟩

/-- Where the calls and the blocks say the same, the same calls are at a `Release()`. -/
theorem callsIn_congr (hcall : ∀ k d item, s'.call k = some ⟨d, item, phase⟩ ↔
      s.call k = some ⟨d, item, phase⟩)
    (hblock : ∀ m, (s'.block m).releases = (s.block m).releases) (hphase : phase.releases) :
    s'.callsIn c phase = s.callsIn c phase := by
  ext a
  cases a with
  | runCall k => simp only [runCall_mem_callsIn, hcall]
  | process n =>
    rw [process_mem_callsIn hphase, process_mem_callsIn hphase]
    have hn := congrArg Prod.fst (hblock n)
    simp only [Block.releases] at hn
    rw [hn]
  | _ => simp [callsIn, accepting]

end Dataflow

/-- A `Release()` is to come for every item in the queue of block `c` whose push has none yet, and
    the thread inside a `Release()` is in one of the calls. -/
structure CallersOf (s : Dataflow Node Item σ ε) (c : Node)
    (q : AsyncCollection Unit (QueueItem Node Item) ε) : Prop where
  adding : (s.callsIn c .release).encard = q.adding
  inside : ∀ a ∈ s.callsIn c .releasing, q.asyncSemaphore.critical.inRelease
  single : ∀ a ∈ s.callsIn c .releasing, ∀ a' ∈ s.callsIn c .releasing, a = a'
  releasing : q.asyncSemaphore.critical.inRelease → ∃ a, a ∈ s.callsIn c .releasing

structure CallersInv (s : Dataflow Node Item σ ε) : Prop where
  fresh : ∀ k, s.calls ≤ k → s.call k = none
  callers : ∀ c, CallersOf s c (s.block c).inputItems

namespace CallersInv

variable {s s' : Dataflow Node Item σ ε}

/-- The same calls are at a `Release()`. -/
theorem callersOf_congr {c : Node} {q q' : AsyncCollection Unit (QueueItem Node Item) ε}
    (h : CallersOf s c q) (hcalls : ∀ phase, phase.releases → s'.callsIn c phase = s.callsIn c phase)
    (hadding : q'.adding = q.adding)
    (hrel : q'.asyncSemaphore.critical.inRelease = q.asyncSemaphore.critical.inRelease) :
    CallersOf s' c q' := by
  refine ⟨?_, ?_, ?_, ?_⟩
  · rw [hcalls .release rfl, hadding]
    exact h.adding
  · rw [hcalls .releasing rfl, hrel]
    exact h.inside
  · rw [hcalls .releasing rfl]
    exact h.single
  · rw [hcalls .releasing rfl, hrel]
    exact h.releasing

/-- A step in which no call comes to its `Release()` or leaves it. -/
theorem congr (h : CallersInv s) (hfresh : ∀ k, s'.calls ≤ k → s'.call k = none)
    (hcall : ∀ k d item phase, phase.releases → (s'.call k = some ⟨d, item, phase⟩ ↔
      s.call k = some ⟨d, item, phase⟩))
    (hblock : ∀ m, (s'.block m).releases = (s.block m).releases) : CallersInv s' := by
  refine ⟨hfresh, fun c => ?_⟩
  have hc := hblock c
  simp only [Block.releases, Prod.mk.injEq] at hc
  exact callersOf_congr (h.callers c)
    (fun phase hphase =>
      Dataflow.callsIn_congr (fun k d item => hcall k d item phase hphase) hblock hphase)
    hc.2.1 hc.2.2

/-- A call of `AcceptInputAsync` of block `c` goes on to `phase`, and the other calls and queues
    stay. -/
structure Moved (s s' : Dataflow Node Item σ ε) (a : DataflowLabel Node Item ε) (c : Node)
    (q : AsyncCollection Unit (QueueItem Node Item) ε) (phase : AcceptPhase ε) : Prop where
  calls : ∀ d p, p.releases → ∀ a', a' ∈ s'.callsIn d p ↔
    a' = a ∧ d = c ∧ p = phase ∨ a' ≠ a ∧ a' ∈ s.callsIn d p
  queue : (s'.block c).inputItems = q
  others : ∀ d, d ≠ c → (s'.block d).inputItems = (s.block d).inputItems

section Moved

variable {a : DataflowLabel Node Item ε} {c : Node} {x : QueueItem Node Item}
  {q : AsyncCollection Unit (QueueItem Node Item) ε} {phase phase' : AcceptPhase ε}

/-- The calls that were in another phase, or of another block. -/
theorem Moved.callsIn_eq (h : Moved s s' a c q phase') (ha : s.accepting a = some (c, x, phase))
    {d : Node} {p : AcceptPhase ε} (hp : p.releases) (hnew : d = c → p ≠ phase')
    (hold : d = c → p ≠ phase) : s'.callsIn d p = s.callsIn d p := by
  ext a'
  rw [h.calls d p hp]
  constructor
  · rintro (⟨-, hd, hphase⟩ | ⟨-, hmem⟩)
    · exact absurd hphase (hnew hd)
    · exact hmem
  · intro hmem
    refine .inr ⟨?_, hmem⟩
    rintro rfl
    obtain ⟨y, hy⟩ := hmem
    cases ha.symm.trans hy
    exact hold rfl rfl

/-- The other blocks stay as they are. -/
theorem Moved.inv (hm : Moved s s' a c q phase') (h : CallersInv s)
    (ha : s.accepting a = some (c, x, phase)) (hfresh : ∀ k, s'.calls ≤ k → s'.call k = none)
    (hc : CallersOf s' c q) : CallersInv s' := by
  refine ⟨hfresh, fun d => ?_⟩
  by_cases hd : d = c
  · subst hd
    rw [hm.queue]
    exact hc
  · rw [hm.others d hd]
    exact callersOf_congr (h.callers d)
      (fun p hp => hm.callsIn_eq ha hp (fun heq => absurd heq hd) fun heq => absurd heq hd) rfl rfl

/-- The item is pushed, and its call comes to its `Release()`. -/
theorem Moved.push (hm : Moved s s' a c q .release) (h : CallersInv s)
    (ha : s.accepting a = some (c, x, .push))
    (hq : (s.block c).inputItems.step (.push x) = some q) : CallersOf s' c q := by
  have hc := h.callers c
  have hsame : s'.callsIn c .releasing = s.callsIn c .releasing :=
    hm.callsIn_eq ha rfl (fun _ => nofun) fun _ => nofun
  have hinsert : s'.callsIn c .release = insert a (s.callsIn c .release) := by
    ext a'
    rw [hm.calls c .release rfl]
    by_cases heq : a' = a <;> simp [heq]
  have hnew : a ∉ s.callsIn c .release := by
    rintro ⟨y, hy⟩
    cases ha.symm.trans hy
  cases hq
  refine ⟨?_, hsame ▸ hc.inside, hsame ▸ hc.single, hsame ▸ hc.releasing⟩
  rw [hinsert, Set.encard_insert_of_notMem hnew, hc.adding]
  rfl

/-- The call leaves its place before `Release()`. -/
theorem Moved.leave (hm : Moved s s' a c q phase') (h : CallersInv s)
    (ha : s.accepting a = some (c, x, .release)) (hne : phase' ≠ .release)
    (hq : (s.block c).inputItems.step .release = some q) :
    (s'.callsIn c .release).encard = q.adding := by
  have hmem : a ∈ s.callsIn c .release := ⟨x, ha⟩
  have herase : s'.callsIn c .release = s.callsIn c .release \ {a} := by
    ext a'
    rw [hm.calls c .release rfl, Set.mem_sdiff, Set.mem_singleton_iff]
    constructor
    · rintro (⟨-, -, hp⟩ | ⟨hne', hmem'⟩)
      · exact absurd hp.symm hne
      · exact ⟨hmem', hne'⟩
    · rintro ⟨hmem', hne'⟩
      exact .inr ⟨hne', hmem'⟩
  have hcount := Set.encard_sdiff_singleton_add_one hmem
  rw [(h.callers c).adding, ← (AsyncCollection.step_release hq).2.2, Nat.cast_add] at hcount
  rw [herase]
  exact WithTop.add_right_cancel ENat.one_ne_top hcount

/-- The call that was inside, and nobody else, is inside as long as its `Release()` is. -/
theorem Moved.release (hm : Moved s s' a c q phase') (hrest : ∀ a' ∈ s.callsIn c .releasing, a' = a)
    (hphase : phase' = .releasing ↔ q.asyncSemaphore.critical.inRelease)
    (hadding : (s'.callsIn c .release).encard = q.adding) : CallersOf s' c q := by
  have hcalls : ∀ a', a' ∈ s'.callsIn c .releasing ↔ a' = a ∧ phase' = .releasing := by
    intro a'
    rw [hm.calls c .releasing rfl]
    constructor
    · rintro (⟨heq, -, hp⟩ | ⟨hne, hmem⟩)
      · exact ⟨heq, hp.symm⟩
      · exact absurd (hrest a' hmem) hne
    · rintro ⟨heq, hp⟩
      exact .inl ⟨heq, rfl, hp.symm⟩
  refine ⟨hadding, fun a' ha' => ?_, fun a₁ h₁ a₂ h₂ => ?_, fun hin => ?_⟩
  · exact hphase.mp ((hcalls a').mp ha').2
  · exact ((hcalls a₁).mp h₁).1.trans ((hcalls a₂).mp h₂).1.symm
  · exact ⟨a, (hcalls a).mpr ⟨rfl, hphase.mpr hin⟩⟩

theorem afterRelease_ne_release (q : AsyncCollection Unit (QueueItem Node Item) ε) :
    (AcceptPhase.afterRelease q : AcceptPhase ε) ≠ .release := by
  unfold AcceptPhase.afterRelease
  split_ifs <;> nofun

theorem afterRelease_eq (hq : q.asyncSemaphore.atRelease) :
    (AcceptPhase.afterRelease q : AcceptPhase ε) = .releasing ↔
      q.asyncSemaphore.critical.inRelease := by
  unfold AcceptPhase.afterRelease AsyncCollection.lockFree
  rcases hq with hfree | hin
  · simp [hfree, Critical.inRelease]
  · cases hc : q.asyncSemaphore.critical <;> rw [hc] at hin <;> simp_all [Critical.inRelease]

/-- A call goes on. -/
theorem accept (h : CallersInv s) (ha : s.accepting a = some (c, x, phase)) {b : Block Node Item σ ε}
    (hb : (s.block c).acceptInputAsync x phase = some (b, phase'))
    (hm : Moved s s' a c b.inputItems phase') (hfresh : ∀ k, s'.calls ≤ k → s'.call k = none) :
    CallersInv s' := by
  have hc := h.callers c
  refine hm.inv h ha hfresh ?_
  cases Block.acceptInputAsync_cases hb with
  | started hst | notStarted hst =>
    refine callersOf_congr hc (fun p hp => hm.callsIn_eq ha hp (fun _ => ?_) fun _ => ?_) rfl rfl
    all_goals
      rintro rfl
      cases hp
  | push hq => exact hm.push h ha hq
  | @full q hq hfull =>
    obtain ⟨hfree, -, -⟩ := AsyncCollection.step_release hq
    refine hm.release (fun a' ha' => ?_) ?_ (hm.leave h ha (by simp) hq)
    · have hin := hc.inside a' ha'
      rw [hfree] at hin
      cases hin
    · rw [AsyncCollection.critical_of_full hq hfull, hfree]
      simp [Critical.inRelease]
  | @release q hq hfull =>
    obtain ⟨hfree, hafter, -⟩ := AsyncCollection.step_release hq
    refine hm.release (fun a' ha' => ?_) (afterRelease_eq hafter)
      (hm.leave h ha (afterRelease_ne_release q) hq)
    have hin := hc.inside a' ha'
    rw [hfree] at hin
    cases hin
  | @releasing q hq =>
    have hmem : a ∈ s.callsIn c .releasing := ⟨x, ha⟩
    refine hm.release (fun a' ha' => hc.single a' ha' a hmem)
      (afterRelease_eq (AsyncCollection.step_advance_inRelease hq (hc.inside a hmem))) ?_
    rw [hm.callsIn_eq ha rfl (fun _ => (afterRelease_ne_release q).symm) fun _ => by simp,
      AsyncCollection.step_adding hq (by simp) (by simp)]
    exact hc.adding

end Moved

/-! ### The steps of the network -/

variable [DecidableEq Node] {N : Network Node Item σ ε}

/-- A call of the user goes on. -/
theorem runCall (h : CallersInv s) {k : ℕ} (hs : s.runCall k = some s') : CallersInv s' := by
  obtain ⟨⟨node, item, was⟩, b, phase, hc, hb, rfl⟩ := Dataflow.runCall_cases hs
  have hproc : ∀ m, ((s.set node b).block m).processingTask = (s.block m).processingTask :=
    Dataflow.set_congr (f := Block.processingTask) (by rw [Block.acceptInputAsync_eq hb])
  refine h.accept (Dataflow.accepting_runCall hc) hb
    ⟨fun d p hp a' => ?_, ?_, fun d hd => ?_⟩ fun j hj => ?_
  · cases a' with
    | runCall j =>
      rw [Dataflow.runCall_mem_callsIn, Dataflow.runCall_mem_callsIn]
      by_cases hjk : j = k
      · subst hjk
        simp [eq_comm]
      · simp [hjk]
    | process n =>
      rw [Dataflow.process_mem_callsIn hp, Dataflow.process_mem_callsIn hp]
      simp [hproc]
    | _ => simp [Dataflow.callsIn, Dataflow.accepting]
  · exact congrArg Block.inputItems (Dataflow.set_block_self s node b)
  · exact congrArg Block.inputItems (Dataflow.set_block_of_ne s b hd)
  · have hjk : j ≠ k := by
      rintro rfl
      cases (h.fresh j hj).symm.trans hc
    exact (Function.update_of_ne hjk ..).trans (h.fresh j hj)

/-- The processing task goes on in a call. -/
theorem offering (h : CallersInv s) {n c : Node} {y : Item} {phase phase' : AcceptPhase ε}
    {offer : List Node} {rest : Option (List (QueueItem Node Item))} {b : Block Node Item σ ε}
    (hp : (s.block n).processingTask = .offering y phase (c :: offer) rest)
    (hb : (s.block c).acceptInputAsync ⟨.block n, y⟩ phase = some (b, phase')) :
    CallersInv ((s.set c b).set n { (s.set c b).block n with
      processingTask := offered y c offer rest phase' }) := by
  have hitems : ∀ m, (((s.set c b).set n { (s.set c b).block n with
      processingTask := offered y c offer rest phase' }).block m).inputItems =
        ((s.set c b).block m).inputItems :=
    Dataflow.set_congr (f := Block.inputItems) (by rfl)
  have hnext : ∀ d p, p.releases →
      ((∃ z, (offered y c offer rest phase').releasing = some (d, z, p)) ↔ d = c ∧ p = phase') := by
    intro d p hrel
    cases phase' with
    | threw e =>
      simp only [offered, Block.next_releasing]
      constructor
      · rintro ⟨z, hz⟩
        cases hz
      · rintro ⟨-, rfl⟩
        cases hrel
    | returned =>
      constructor
      · rintro ⟨z, hz⟩
        obtain ⟨-, _, _, heq⟩ := Block.releasing_eq_some.mp hz
        cases heq
        cases hrel
      · rintro ⟨-, rfl⟩
        cases hrel
    | throwIfNotStarted | push | release | releasing =>
      constructor
      · rintro ⟨z, hz⟩
        obtain ⟨-, _, _, heq⟩ := Block.releasing_eq_some.mp hz
        cases heq
        exact ⟨rfl, rfl⟩
      · rintro ⟨rfl, rfl⟩
        exact ⟨y, Block.releasing_eq_some.mpr ⟨hrel, _, _, rfl⟩⟩
  refine h.accept (Dataflow.accepting_process hp) hb
    ⟨fun d p hrel a' => ?_, ?_, fun d hd => ?_⟩ h.fresh
  · cases a' with
    | runCall j =>
      rw [Dataflow.runCall_mem_callsIn, Dataflow.runCall_mem_callsIn]
      simp [Dataflow.set]
    | process m =>
      rw [Dataflow.process_mem_callsIn hrel, Dataflow.process_mem_callsIn hrel]
      by_cases hm : m = n
      · subst hm
        rw [Dataflow.set_block_self, hnext d p hrel]
        simp
      · have hproc : ((s.set c b).block m).processingTask = (s.block m).processingTask :=
          Dataflow.set_congr (f := Block.processingTask) (by rw [Block.acceptInputAsync_eq hb]) m
        rw [Dataflow.set_block_of_ne _ _ hm, hproc]
        simp [hm]
    | _ => simp [Dataflow.callsIn, Dataflow.accepting]
  · rw [hitems, Dataflow.set_block_self]
  · rw [hitems, Dataflow.set_block_of_ne _ _ hd]

omit [DecidableEq Node] in
theorem closedCalls (s : Dataflow Node Item σ ε) :
    ClosedCalls fun n (b : Block Node Item σ ε) => b.releases = (s.block n).releases where
  start h hs := (Block.start_releases hs).trans h
  completeCommon h hs := (Block.completeCommon_releases hs).trans h
  advance h hs := (Block.advance_releases hs).trans h
  resumed h := h
  throwing h _ := h
  faultThread h := h

theorem process (h : CallersInv s) {n : Node} (hs : s.process N n = some s') : CallersInv s' := by
  obtain ⟨hcall, hcalls⟩ := Dataflow.process_call hs
  have hsame : ∀ b : Block Node Item σ ε, b.releases = (s.block n).releases →
      CallersInv (s.set n b) := fun b hb =>
    h.congr h.fresh (fun _ _ _ _ _ => Iff.rfl) (Dataflow.set_congr (f := Block.releases) hb)
  rcases Dataflow.process_cases hs with ⟨y, c, ask, offer, rest, hp, -, rfl⟩ |
    ⟨y, phase, c, offer, rest, bc, phase', hp, hb, rfl⟩ | ⟨b, hb, rfl⟩
  · refine hsame _ ?_
    unfold Block.releases
    rw [hp]
    rfl
  · exact h.offering hp hb
  · exact hsame b (Block.process_releases hb)

theorem step (h : CallersInv s) {a : DataflowLabel Node Item ε} (hs : s.step N a = some s') :
    CallersInv s' := by
  have hrun := hs
  unfold Dataflow.step at hrun
  split_ifs at hrun
  have hblocks : a.movesItems = false → ∀ m, (s'.block m).releases = (s.block m).releases := by
    intro ha
    refine (closedCalls s).step (fun m => rfl) (fun n hn => ?_)
      (fun c x phase b' phase' hacc => ?_) hs
    · rw [hn] at ha
      cases ha
    · cases a with
      | runCall | process => cases ha
      | _ => cases hacc
  cases a with
  | runCall k => exact h.runCall hrun
  | process n => exact h.process hrun
  | acceptInputAsync n item =>
    cases hrun
    refine h.congr (fun k hk => ?_) (fun k d item' phase hp => ?_) fun _ => rfl
    · have hlt : s.calls + 1 ≤ k := hk
      exact (Function.update_of_ne (by omega) ..).trans (h.fresh k (by omega))
    · by_cases hk : k = s.calls
      · subst hk
        simp only [Function.update_self, h.fresh _ le_rfl]
        constructor
        · intro heq
          cases heq
          cases hp
        · nofun
      · simp only [Function.update_of_ne hk]
  | start n | complete n | setFaulted n e | advance n | runFaultThread n =>
    obtain ⟨hc, hcs, -⟩ := Dataflow.step_call hs nofun nofun
    refine h.congr ?_ (fun k d item phase _ => by rw [hc]) (hblocks rfl)
    rw [hc, hcs]
    exact h.fresh

end CallersInv

end AsyncCpp.DataFlow
