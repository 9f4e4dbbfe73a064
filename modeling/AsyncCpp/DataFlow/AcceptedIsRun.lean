import AsyncCpp.AsyncPrimitives.CollectionSteps
import AsyncCpp.DataFlow.BlockInvariant

/-!
# Items that were accepted

`AcceptInputAsync` checks that the block is started, and then adds the item without the
mutex. In between, `Complete()` can cancel the processing task, which empties the queue
for the last time; an item added after that stays in the queue, and the call returns all
the same.

Results:
* `ran_eq_added`: in every run in which nobody adds an item after the processing task has
  emptied the queue, a completed block has called its function on all the items that were
  added, once each and in their order.
* `ran_of_returned`: there the function was called on the item of every call that returned
  exactly once.
-/

namespace AsyncCpp.DataFlow

open Interleaving Tasks AsyncPrimitives

variable {Node Item σ ε : Type*}

/-! ## The way of an item -/

/-- The processing task has called `TryTakeAll` and has not failed. -/
def Processing.closed : Processing Node Item ε → Bool
  | .invoke _ rest | .asking _ _ _ rest | .offering _ _ _ rest => rest.isSome
  | .finished (.ok _) => true
  | .finished (.error _) | .initial | .awaitStart | .loop | .taking _ | .drain | .failed _ => false

/-- The processing task has failed. -/
def Processing.hasFailed : Processing Node Item ε → Bool
  | .failed _ | .finished (.error _) => true
  | _ => false

/-- The items that left the queue and that the function was not yet called on. -/
def Block.hand (b : Block Node Item σ ε) : List (QueueItem Node Item) :=
  match b.processingTask with
  | .taking i =>
    match b.inputItems.outcome i with
    | some (.ok x) => [x]
    | _ => []
  | .invoke x rest => x :: rest.getD []
  | .asking _ _ _ rest | .offering _ _ _ rest => rest.getD []
  | _ => []

/-- Where the items of a block are: in the queue, in hand, or run. -/
structure QueueInv (b : Block Node Item σ ε) : Prop where
  order : b.inputItems.added =
    b.inputItems.handedOut.map Prod.snd ++ b.inputItems.innerCollection
  ran : b.processingTask.hasFailed = false →
    b.inputItems.handedOut.map Prod.snd = b.ran ++ b.hand
  closed : b.processingTask.closed → b.inputItems.innerCollection = []
  fresh : ∀ i, b.inputItems.asyncSemaphore.issued ≤ i → b.inputItems.outcome i = none
  taking : ∀ i, b.processingTask = .taking i → i < b.inputItems.asyncSemaphore.issued

namespace QueueInv

variable {N : Network Node Item σ ε} {n : Node} {b b' : Block Node Item σ ε}

/-- The queue stays; nothing is run. -/
theorem move (h : QueueInv b) {q : AsyncCollection Unit (QueueItem Node Item) ε}
    (hq : q = { b.inputItems with asyncSemaphore := q.asyncSemaphore, adding := q.adding })
    (hissued : b.inputItems.asyncSemaphore.issued ≤ q.asyncSemaphore.issued)
    (h1 : b'.inputItems = q) (h2 : b'.ran = b.ran)
    (hran : b'.processingTask.hasFailed = false → b.processingTask.hasFailed = false ∧
      b'.hand = b.hand)
    (hclosed : b'.processingTask.closed → b.processingTask.closed)
    (htaking : ∀ i, b'.processingTask = .taking i → i < q.asyncSemaphore.issued) : QueueInv b' := by
  have hout : q.outcome = b.inputItems.outcome := by rw [hq]
  refine ⟨?_, ?_, ?_, ?_, ?_⟩
  · rw [h1, hq]
    exact h.order
  · intro hf
    obtain ⟨hf', hhand⟩ := hran hf
    rw [h1, h2, hhand, hq]
    exact h.ran hf'
  · intro hc
    rw [h1, hq]
    exact h.closed (hclosed hc)
  · intro i hi
    rw [h1] at hi ⊢
    rw [hout]
    exact h.fresh i (hissued.trans hi)
  · intro i hi
    rw [h1]
    exact htaking i hi

/-- Nothing the invariant speaks of changes. -/
theorem congr (h : QueueInv b) (h1 : b'.inputItems = b.inputItems) (h2 : b'.ran = b.ran)
    (h3 : b'.processingTask = b.processingTask) : QueueInv b' := by
  refine h.move (q := b.inputItems) rfl le_rfl h1 h2 (fun hf => ?_) (fun hc => ?_) fun i hi => ?_
  · rw [h3] at hf
    refine ⟨hf, ?_⟩
    unfold Block.hand
    rw [h1, h3]
  · rwa [h3] at hc
  · rw [h3] at hi
    exact h.taking i hi

/-- A step that leaves the queue alone. -/
theorem quiet (h : QueueInv b) {q : AsyncCollection Unit (QueueItem Node Item) ε}
    {a : CollectionLabel Unit (QueueItem Node Item)} (ha : a.isQuiet)
    (hq : b.inputItems.step a = some q) (h1 : b'.inputItems = q) (h2 : b'.ran = b.ran)
    (h3 : b'.processingTask = b.processingTask) : QueueInv b' := by
  obtain ⟨heq, hissued⟩ := AsyncCollection.step_of_isQuiet ha hq
  refine h.move heq hissued h1 h2 (fun hf => ?_) (fun hc => ?_) fun i hi => ?_
  · rw [h3] at hf
    refine ⟨hf, ?_⟩
    unfold Block.hand
    rw [h1, h3, heq]
  · rwa [h3] at hc
  · rw [h3] at hi
    exact (h.taking i hi).trans_le hissued

/-- Only the processing task moves on. -/
theorem goto (h : QueueInv b) {p : Processing Node Item ε} (h1 : b'.inputItems = b.inputItems)
    (h2 : b'.ran = b.ran) (h3 : b'.processingTask = p) (hf : b.processingTask.hasFailed = false)
    (hhand : p.hasFailed = false → b'.hand = b.hand)
    (hclosed : p.closed → b.processingTask.closed)
    (htaking : ∀ i, p ≠ .taking i) : QueueInv b' := by
  refine h.move (q := b.inputItems) rfl le_rfl h1 h2 (fun hf' => ⟨hf, ?_⟩) (fun hc => ?_)
    fun i hi => ?_
  · rw [h3] at hf'
    exact hhand hf'
  · rw [h3] at hc
    exact hclosed hc
  · exact absurd (h3.symm.trans hi) (htaking i)

theorem resume (h : QueueInv b) {i : ℕ} {q : AsyncCollection Unit (QueueItem Node Item) ε}
    (hp : b.processingTask = .taking i) (ho : b.inputItems.outcome i = none)
    (hq : b.inputItems.step (.resume i) = some q) : QueueInv { b with inputItems := q } := by
  have hi := h.taking i hp
  have hran := h.ran (by rw [hp]; rfl)
  have hhand : b.hand = [] := by simp [Block.hand, hp, ho]
  rw [hhand, List.append_nil] at hran
  have hne : ∀ j, b.inputItems.asyncSemaphore.issued ≤ j → j ≠ i := fun j hj => by omega
  rcases AsyncCollection.resume_cases hq with ⟨x, xs, hx, rfl⟩ | ⟨e, rfl⟩
  · refine ⟨?_, fun _ => ?_, fun hc => ?_, fun j hj => ?_, h.taking⟩
    · have horder := h.order
      rw [hx] at horder
      simpa using horder
    · simp [Block.hand, hp, hran]
    · rw [hp] at hc
      cases hc
    · simp only [Function.update_of_ne (hne j hj)]
      exact h.fresh j hj
  · refine ⟨h.order, fun _ => ?_, h.closed, fun j hj => ?_, h.taking⟩
    · simp [Block.hand, hp, hran]
    · simp only [Function.update_of_ne (hne j hj)]
      exact h.fresh j hj

/-- `TryTakeAll`: the items of the queue are in hand. -/
theorem drained (h : QueueInv b) {q : AsyncCollection Unit (QueueItem Node Item) ε}
    (hp : b.processingTask = .drain) (hq : b.inputItems.step .tryTakeAll = some q) :
    QueueInv { b with
      inputItems := q, processingTask := .next (some b.inputItems.innerCollection) } := by
  cases hq
  have hran := h.ran (by rw [hp]; rfl)
  have hhand : b.hand = [] := by simp [Block.hand, hp]
  rw [hhand, List.append_nil] at hran
  refine ⟨?_, fun _ => ?_, fun _ => rfl, h.fresh, fun i hi => ?_⟩
  · simpa [AsyncCollection.tryTakeAll, Function.comp_def] using h.order
  · cases hx : b.inputItems.innerCollection <;>
      simp [AsyncCollection.tryTakeAll, Processing.next, Block.hand, hx, hran, Function.comp_def]
  · cases hx : b.inputItems.innerCollection <;>
      simp [Processing.next, hx] at hi

/-- The function is called on the item in hand. -/
theorem ran_step (h : QueueInv b) {x : QueueItem Node Item}
    {rest : Option (List (QueueItem Node Item))} (hp : b.processingTask = .invoke x rest)
    (h1 : b'.inputItems = b.inputItems) (h2 : b'.ran = b.ran ++ [x])
    (hhand : b'.processingTask.hasFailed = false → b'.hand = rest.getD [])
    (hclosed : b'.processingTask.closed → rest.isSome)
    (htaking : ∀ i, b'.processingTask ≠ .taking i) : QueueInv b' := by
  have hran := h.ran (by rw [hp]; rfl)
  have hhand' : b.hand = x :: rest.getD [] := by simp [Block.hand, hp]
  refine ⟨by rw [h1]; exact h.order, fun hf => ?_, fun hc => ?_, by rw [h1]; exact h.fresh,
    fun i hi => absurd hi (htaking i)⟩
  · rw [h1, h2, hhand hf, hran, hhand']
    simp
  · rw [h1]
    exact h.closed (by rw [hp]; exact hclosed hc)

theorem next_closed {rest : Option (List (QueueItem Node Item))}
    (h : (Processing.next rest : Processing Node Item ε).closed) : rest.isSome := by
  cases rest with
  | none => cases h
  | some xs => rfl

theorem next_ne_taking (rest : Option (List (QueueItem Node Item))) (i : ℕ) :
    (Processing.next rest : Processing Node Item ε) ≠ .taking i := by
  rcases rest with _ | _ | _ <;> nofun

theorem hand_next {b : Block Node Item σ ε} {rest : Option (List (QueueItem Node Item))}
    (h : b.processingTask = .next rest) : b.hand = rest.getD [] := by
  unfold Block.hand
  rw [h]
  rcases rest with _ | _ | _ <;> rfl

theorem process (h : QueueInv b) (hs : b.process N n = some b') : QueueInv b' := by
  cases Block.process_cases hs with
  | started hp | canceled hp =>
    exact h.goto rfl rfl rfl (by rw [hp]; rfl) (fun _ => by simp [Block.hand, hp]) nofun nofun
  | asked hp =>
    exact h.goto rfl rfl rfl (by rw [hp]; rfl) (fun _ => by simp [Block.hand, hp])
      (by rw [hp]; exact id) nofun
  | retry hp ho | takeFailed hp ho | took hp ho =>
    exact h.goto rfl rfl rfl (by rw [hp]; rfl) (fun _ => by simp [Block.hand, hp, ho]) nofun nofun
  | take hp hq =>
    obtain ⟨heq, hissued⟩ := AsyncCollection.step_of_isQuiet rfl hq
    refine h.move heq hissued rfl rfl (fun _ => ⟨by rw [hp]; rfl, ?_⟩) nofun fun i hi => ?_
    · have hout := h.fresh _ le_rfl
      rw [heq]
      simp only [Block.hand, hp, hout]
    · cases hi
      rw [AsyncCollection.takeAsync_issued hq]
      exact Nat.lt_succ_self _
  | waiting hp hq => exact h.quiet rfl hq rfl rfl rfl
  | resume hp ho hq => exact h.resume hp ho hq
  | invoked hp => exact h.ran_step hp rfl rfl (fun _ => rfl) id nofun
  | threw hp => exact h.ran_step hp rfl rfl nofun nofun nofun
  | propagated hp =>
    refine h.goto rfl rfl rfl (by rw [hp]; rfl) (fun _ => ?_) (fun hc => ?_) (next_ne_taking _)
    · rw [hand_next rfl]
      simp [Block.hand, hp]
    · rw [hp]
      exact next_closed hc
  | drained hp hq => exact h.drained hp hq
  | reported hp => exact h.move (q := b.inputItems) rfl le_rfl rfl rfl nofun nofun nofun

theorem offered (h : QueueInv b) {y : Item} {phase phase' : AcceptPhase ε} {c : Node}
    {offer : List Node} {rest : Option (List (QueueItem Node Item))}
    (hp : b.processingTask = .offering y phase (c :: offer) rest) :
    QueueInv { b with processingTask := offered y c offer rest phase' } := by
  refine h.goto rfl rfl rfl (by rw [hp]; rfl) (fun _ => ?_) (fun hc => ?_) (fun i => ?_)
  · have hhand : b.hand = rest.getD [] := by simp [Block.hand, hp]
    rw [hhand]
    cases phase' with
    | threw e => exact hand_next rfl
    | _ => rfl
  · rw [hp]
    cases phase' with
    | threw e => exact next_closed hc
    | _ => exact hc
  · cases phase' with
    | threw e => exact next_ne_taking rest i
    | _ => nofun

/-- An item is added while the queue is still going to be emptied. -/
theorem push (h : QueueInv b) (hc : b.processingTask.closed = false) (x : QueueItem Node Item)
    {q : AsyncCollection Unit (QueueItem Node Item) ε}
    (hq : b.inputItems.step (.push x) = some q) : QueueInv { b with inputItems := q } := by
  cases hq
  refine ⟨?_, h.ran, fun hc' => ?_, h.fresh, h.taking⟩
  · rw [h.order, List.append_assoc]
  · rw [hc] at hc'
    cases hc'

theorem accept (h : QueueInv b) {x : QueueItem Node Item} {phase phase' : AcceptPhase ε}
    (hA : phase = .push → b.processingTask.closed = false)
    (hs : b.acceptInputAsync x phase = some (b', phase')) : QueueInv b' := by
  cases Block.acceptInputAsync_cases hs with
  | started | notStarted => exact h
  | push hq => exact h.push (hA rfl) x hq
  | full hq | release hq | releasing hq => exact h.quiet rfl hq rfl rfl rfl

theorem start (h : QueueInv b) {caller : Caller Node} {r : Reply Node ε}
    (hs : b.start caller = some (b', r)) : QueueInv b' := by
  obtain ⟨heq, hp | ⟨hp, hp'⟩⟩ := Block.start_eq hs
  · exact h.congr (by rw [heq]) (by rw [heq]) hp
  · refine h.goto (by rw [heq]) (by rw [heq]) hp' (by rw [hp]; rfl) (fun _ => ?_) nofun nofun
    simp [Block.hand, hp, hp']

theorem advance (h : QueueInv b) {r : NextCall Node ε} (hs : b.advance = some (b', r)) :
    QueueInv b' := by
  obtain ⟨heq, hq | ⟨a, ha, hq⟩⟩ := Block.advance_eq hs
  · exact h.congr hq (by rw [heq]) (by rw [heq])
  · refine h.quiet (a := a) ?_ hq rfl (by rw [heq]) (by rw [heq])
    rcases ha with rfl | rfl <;> rfl

theorem closed_ops (N : Network Node Item σ ε) :
    Closed N (fun phase b => phase = .push → b.processingTask.closed = false)
      fun _ (b : Block Node Item σ ε) => QueueInv b where
  start h := h.start
  completeCommon h hs := by
    rw [Block.completeCommon_eq hs]
    exact h.congr rfl rfl rfl
  advance h := h.advance
  resumed h := h.congr rfl rfl rfl
  throwing h _ := h.congr rfl rfl rfl
  process h := h.process
  asked h hp _ := h.goto rfl rfl rfl (by rw [hp]; rfl) (fun _ => by simp [Block.hand, hp])
    (by rw [hp]; exact id) nofun
  offered h hp := h.offered hp
  accept h hA hs := h.accept hA hs
  faultThread h := h.congr rfl rfl rfl

end QueueInv

/-! ## What is added to the queues -/

/-- No operation but the push of `AcceptInputAsync` changes the items added. -/
theorem added_closed (N : Network Node Item σ ε) (f : Node → List (QueueItem Node Item)) :
    Closed N (fun phase _ => phase ≠ .push)
      fun n (b : Block Node Item σ ε) => b.inputItems.added = f n where
  start h hs := by rw [(Block.start_eq hs).1]; exact h
  completeCommon h hs := by rw [Block.completeCommon_eq hs]; exact h
  advance h hs := by
    obtain ⟨-, hq | ⟨a, ha, hq⟩⟩ := Block.advance_eq hs
    · rw [hq]
      exact h
    · have hquiet : a.isQuiet := by rcases ha with rfl | rfl <;> rfl
      rw [(AsyncCollection.step_of_isQuiet hquiet hq).1]
      exact h
  resumed h := h
  throwing h _ := h
  process h hs := by
    cases Block.process_cases hs with
    | take hp hq | waiting hp hq => rw [(AsyncCollection.step_of_isQuiet rfl hq).1]; exact h
    | resume hp ho hq =>
      rcases AsyncCollection.resume_cases hq with ⟨x, xs, hx, rfl⟩ | ⟨e, rfl⟩ <;> exact h
    | drained hp hq =>
      cases hq
      exact h
    | _ => exact h
  asked h _ _ := h
  offered h _ := h
  accept {n b x phase b' phase'} h hA hs := by
    cases Block.acceptInputAsync_cases hs with
    | started | notStarted => exact h
    | push => exact absurd rfl hA
    | full hq | release hq | releasing hq =>
      rw [(AsyncCollection.step_of_isQuiet rfl hq).1]
      exact h
  faultThread h := h

/-! ## The phases of a call -/

namespace AcceptPhase

/-- The item is not added. The `std::logic_error` is the one of `throwIfNotStarted`. -/
def before : AcceptPhase ε → Bool
  | .throwIfNotStarted | .push | .threw (.logicError _) => true
  | .release | .releasing | .returned | .threw _ => false

/-- The item is added and the call has not thrown. -/
def after : AcceptPhase ε → Bool
  | .release | .releasing | .returned => true
  | .throwIfNotStarted | .push | .threw _ => false

theorem afterRelease_phase (q : AsyncCollection Unit (QueueItem Node Item) ε) :
    (afterRelease q).before = false ∧ (afterRelease q).after = true := by
  unfold afterRelease
  split_ifs <;> exact ⟨rfl, rfl⟩

end AcceptPhase

namespace Block

/-- A step that is not the push. -/
theorem acceptInputAsync_phase {b b' : Block Node Item σ ε} {x : QueueItem Node Item}
    {phase phase' : AcceptPhase ε} (h : b.acceptInputAsync x phase = some (b', phase'))
    (hne : phase ≠ .push) :
    (phase'.before → phase.before) ∧ (phase'.after → phase.after) := by
  cases acceptInputAsync_cases h with
  | push => exact absurd rfl hne
  | started | notStarted => exact ⟨fun _ => rfl, nofun⟩
  | full => exact ⟨nofun, nofun⟩
  | @release q | @releasing q =>
    refine ⟨fun hb => ?_, fun _ => rfl⟩
    rw [(AcceptPhase.afterRelease_phase q).1] at hb
    cases hb

theorem added_push {b b' : Block Node Item σ ε} {x : QueueItem Node Item} {phase' : AcceptPhase ε}
    (h : b.acceptInputAsync x .push = some (b', phase')) :
    b'.inputItems.added = b.inputItems.added ++ [x] ∧ phase' = .release := by
  simp only [acceptInputAsync, Option.map_eq_some_iff] at h
  obtain ⟨q, hq, h⟩ := h
  cases hq
  cases h
  exact ⟨rfl, rfl⟩

end Block

variable [DecidableEq Node]

/-- The items the step adds to the queue of block `m`. -/
def Dataflow.pushed (s : Dataflow Node Item σ ε) (a : DataflowLabel Node Item ε) (m : Node) :
    List (QueueItem Node Item) :=
  match s.accepting a with
  | some (c, x, .push) => if m = c then [x] else []
  | _ => []

namespace Dataflow

variable {N : Network Node Item σ ε} {s s' : Dataflow Node Item σ ε}
  {a : DataflowLabel Node Item ε}

theorem pushed_of_push {c : Node} {x : QueueItem Node Item}
    (h : s.accepting a = some (c, x, .push)) (m : Node) :
    s.pushed a m = if m = c then [x] else [] := by
  simp only [pushed, h]

theorem pushed_of_ne {c : Node} {x : QueueItem Node Item} {phase : AcceptPhase ε}
    (h : s.accepting a = some (c, x, phase)) (hne : phase ≠ .push) (m : Node) :
    s.pushed a m = [] := by
  cases phase with
  | push => exact absurd rfl hne
  | _ => simp only [pushed, h]

theorem mem_pushed {m : Node} {x : QueueItem Node Item} (h : x ∈ s.pushed a m) :
    s.accepting a = some (m, x, .push) := by
  unfold pushed at h
  split at h
  · split_ifs at h with hm
    · rw [List.mem_singleton.mp h, hm]
      assumption
    · cases h
  · cases h

/-- The step adds `x` to the queue of `c`. -/
theorem added_set {c : Node} {x : QueueItem Node Item} {b : Block Node Item σ ε}
    (h : b.inputItems.added = (s.block c).inputItems.added ++ [x]) (m : Node) :
    ((s.set c b).block m).inputItems.added =
      (s.block m).inputItems.added ++ if m = c then [x] else [] := by
  by_cases hm : m = c
  · subst hm
    rw [set_block_self, if_pos rfl, h]
  · rw [set_block_of_ne _ _ hm, if_neg hm, List.append_nil]

/-- What a step of the network adds to the queues. -/
theorem added_step (hs : s.step N a = some s') (m : Node) :
    (s'.block m).inputItems.added = (s.block m).inputItems.added ++ s.pushed a m := by
  by_cases hpush : ∃ c x, s.accepting a = some (c, x, .push)
  · obtain ⟨c, x, hacc⟩ := hpush
    rw [pushed_of_push hacc]
    unfold Dataflow.step at hs
    split_ifs at hs
    cases a with
    | runCall k =>
      obtain ⟨call, b, phase, hcall, hb, rfl⟩ := runCall_cases hs
      rw [accepting_runCall hcall] at hacc
      simp only [Option.some.injEq, Prod.mk.injEq] at hacc
      obtain ⟨rfl, rfl, hphase⟩ := hacc
      rw [hphase] at hb
      exact added_set (Block.added_push hb).1 m
    | process n =>
      simp only [accepting] at hacc
      split at hacc
      · rename_i y phase c' offer rest hpc
        cases hacc
        simp only [process, hpc, Option.map_eq_some_iff] at hs
        obtain ⟨⟨bc, phase'⟩, hb, rfl⟩ := hs
        rw [← added_set (Block.added_push hb).1 m]
        by_cases hm : m = n
        · subst hm
          rw [set_block_self]
        · rw [set_block_of_ne _ _ hm]
      · cases hacc
    | _ => cases hacc
  · have hpushed : s.pushed a m = [] :=
      List.eq_nil_iff_forall_not_mem.mpr fun x hx => hpush ⟨m, x, mem_pushed hx⟩
    rw [hpushed, List.append_nil]
    refine (added_closed N fun n => (s.block n).inputItems.added).step (fun _ => rfl) ?_ hs m
    rintro c x phase hacc rfl
    exact hpush ⟨c, x, hacc⟩

/-! ## The calls of the user -/

theorem origin_of_pushed_process {n m : Node} {x : QueueItem Node Item}
    (hx : x ∈ s.pushed (.process n) m) : x.origin = .block n := by
  have hacc := mem_pushed hx
  simp only [accepting] at hacc
  split at hacc
  · cases hacc
    rfl
  · cases hacc

theorem reply_call (s : Dataflow Node Item σ ε) (r : Reply Node ε) :
    (s.reply r).call = s.call ∧ (s.reply r).calls = s.calls := by
  cases r with
  | inside => exact ⟨rfl, rfl⟩
  | returned caller => cases caller <;> exact ⟨rfl, rfl⟩
  | threw e caller =>
    cases caller with
    | user | faultThread => exact ⟨rfl, rfl⟩
    | block p =>
      simp only [reply]
      split <;> exact ⟨rfl, rfl⟩

theorem start_call {n : Node} {caller : Caller Node} (h : s.start n caller = some s') :
    s'.call = s.call ∧ s'.calls = s.calls := by
  simp only [start, Option.map_eq_some_iff] at h
  obtain ⟨⟨b, r⟩, -, rfl⟩ := h
  exact reply_call _ r

theorem completeCommon_call {n : Node} {caller : Caller Node} {e : Option (Exn ε)}
    (h : s.completeCommon n caller e = some s') : s'.call = s.call ∧ s'.calls = s.calls := by
  simp only [completeCommon, Option.map_eq_some_iff] at h
  obtain ⟨⟨b, r⟩, -, rfl⟩ := h
  exact reply_call _ r

theorem advance_call {n : Node} (h : s.advance n = some s') :
    s'.call = s.call ∧ s'.calls = s.calls := by
  unfold advance at h
  split at h
  · cases h
  · cases h
    exact reply_call _ _
  · exact start_call (s := s.set n _) h
  · exact completeCommon_call (s := s.set n _) h

theorem process_call {n : Node} (h : s.process N n = some s') :
    s'.call = s.call ∧ s'.calls = s.calls := by
  rcases process_cases h with ⟨y, c, ask, offer, rest, -, -, rfl⟩ |
    ⟨y, phase, c, offer, rest, bc, phase', -, -, rfl⟩ | ⟨b, -, rfl⟩ <;> exact ⟨rfl, rfl⟩

/-- A step that is not one of a call of the user. -/
theorem step_call (h : s.step N a = some s') (h1 : ∀ n item, a ≠ .acceptInputAsync n item)
    (h2 : ∀ k, a ≠ .runCall k) :
    s'.call = s.call ∧ s'.calls = s.calls ∧ ∀ m, ∀ x ∈ s.pushed a m, ∀ k, x.origin ≠ .user k := by
  unfold step at h
  split_ifs at h
  cases a with
  | start n =>
    obtain ⟨hc, hcs⟩ := start_call h
    exact ⟨hc, hcs, nofun⟩
  | complete n | setFaulted n e =>
    obtain ⟨hc, hcs⟩ := completeCommon_call h
    exact ⟨hc, hcs, nofun⟩
  | acceptInputAsync n item => exact absurd rfl (h1 n item)
  | runCall k => exact absurd rfl (h2 k)
  | advance n =>
    obtain ⟨hc, hcs⟩ := advance_call h
    exact ⟨hc, hcs, nofun⟩
  | process n =>
    obtain ⟨hc, hcs⟩ := process_call h
    refine ⟨hc, hcs, fun m x hx k hk => ?_⟩
    cases (origin_of_pushed_process hx).symm.trans hk
  | runFaultThread n =>
    simp only at h
    split at h
    · cases h
    · obtain ⟨hc, hcs⟩ := completeCommon_call (s := s.set n _) h
      exact ⟨hc, hcs, nofun⟩

/-- What a step does to the calls of the user. -/
inductive CallsStep (s : Dataflow Node Item σ ε) :
    DataflowLabel Node Item ε → Dataflow Node Item σ ε → Prop
  /-- A call is made. -/
  | made (n : Node) (item : Item) :
    CallsStep s (.acceptInputAsync n item)
      { s with
        call := Function.update s.call s.calls (some { node := n, item := item })
        calls := s.calls + 1 }
  /-- A call goes on. -/
  | ran {k : ℕ} {c : AcceptCall Node Item ε} {b : Block Node Item σ ε} {phase : AcceptPhase ε}
    (hc : s.call k = some c)
    (hb : (s.block c.node).acceptInputAsync ⟨.user k, c.item⟩ c.phase = some (b, phase)) :
    CallsStep s (.runCall k)
      { s.set c.node b with call := Function.update s.call k (some { c with phase := phase }) }
  | kept {a : DataflowLabel Node Item ε} {s' : Dataflow Node Item σ ε} (hc : s'.call = s.call)
    (hcs : s'.calls = s.calls) (hpushed : ∀ m, ∀ x ∈ s.pushed a m, ∀ k, x.origin ≠ .user k) :
    CallsStep s a s'

theorem calls_cases (h : s.step N a = some s') : CallsStep s a s' := by
  have hs := h
  unfold step at hs
  split_ifs at hs
  cases a with
  | acceptInputAsync n item =>
    cases hs
    exact .made n item
  | runCall k =>
    obtain ⟨c, b, phase, hc, hb, rfl⟩ := runCall_cases hs
    exact .ran hc hb
  | _ =>
    obtain ⟨hc, hcs, hpushed⟩ := step_call h nofun nofun
    exact .kept hc hcs hpushed

/-- A property of every call is kept when it holds of a call that is made and of one that goes
    on. -/
theorem forall_call_step {P : ℕ → AcceptCall Node Item ε → Prop} (hs : s.step N a = some s')
    (h : ∀ k c, s.call k = some c → P k c)
    (hmade : ∀ n item, a = .acceptInputAsync n item → P s.calls { node := n, item := item })
    (hran : ∀ k c b phase, a = .runCall k → s.call k = some c →
      (s.block c.node).acceptInputAsync ⟨.user k, c.item⟩ c.phase = some (b, phase) →
        P k { c with phase := phase }) : ∀ k c, s'.call k = some c → P k c := by
  have hupdate : ∀ (i : ℕ) (d : AcceptCall Node Item ε), P i d →
      ∀ k c, Function.update s.call i (some d) k = some c → P k c := by
    intro i d hd k c hk
    by_cases hki : k = i
    · subst hki
      rw [Function.update_self] at hk
      cases hk
      exact hd
    · rw [Function.update_of_ne hki] at hk
      exact h k c hk
  cases calls_cases hs with
  | made n item => exact hupdate _ _ (hmade n item rfl)
  | ran hc hb => exact hupdate _ _ (hran _ _ _ _ rfl hc hb)
  | kept hc => rwa [hc]

/-- The items of call `k` among the items added to block `n`. -/
def fromCall (s : Dataflow Node Item σ ε) (k : ℕ) (n : Node) : List (QueueItem Node Item) :=
  (s.block n).inputItems.added.filter fun x => x.origin = .user k

/-- A call adds its item once, in its step from `push` to `release`. -/
structure CallInv (s : Dataflow Node Item σ ε) : Prop where
  fresh : ∀ k, s.calls ≤ k → s.call k = none
  before : ∀ k n, (∀ c, s.call k = some c → c.phase.before) → s.fromCall k n = []
  after : ∀ k c, s.call k = some c → c.phase.after → s.fromCall k c.node = [⟨.user k, c.item⟩]

theorem fromCall_step (hs : s.step N a = some s') (k : ℕ) (n : Node) :
    s'.fromCall k n = s.fromCall k n ++ (s.pushed a n).filter fun x => x.origin = .user k := by
  unfold fromCall
  rw [added_step hs, List.filter_append]

/-- A step that adds nothing for call `k`. -/
theorem fromCall_step_of_ne (hs : s.step N a = some s') {k : ℕ} {n : Node}
    (h : ∀ x ∈ s.pushed a n, x.origin ≠ .user k) : s'.fromCall k n = s.fromCall k n := by
  rw [fromCall_step hs, List.filter_eq_nil_iff.mpr fun x hx => by simpa using h x hx,
    List.append_nil]

namespace CallInv

/-- A call goes on. -/
theorem runCall (h : CallInv s) {k : ℕ} {c : AcceptCall Node Item ε} {b : Block Node Item σ ε}
    {phase : AcceptPhase ε}
    (hs : s.step N (.runCall k) = some
      { s.set c.node b with call := Function.update s.call k (some { c with phase := phase }) })
    (hcall : s.call k = some c)
    (hb : (s.block c.node).acceptInputAsync ⟨.user k, c.item⟩ c.phase = some (b, phase)) :
    CallInv
      { s.set c.node b with
        call := Function.update s.call k (some { c with phase := phase }) } := by
  have hfrom := fromCall_step hs
  have hacc := accepting_runCall hcall
  have hother : ∀ j m, j ≠ k → ∀ x ∈ s.pushed (.runCall k) m, x.origin ≠ .user j := by
    intro j m hj x hx
    have heq := hacc.symm.trans (mem_pushed hx)
    simp only [Option.some.injEq, Prod.mk.injEq] at heq
    rw [← heq.2.1]
    simpa using hj.symm
  refine ⟨fun j hj => ?_, fun j m hbefore => ?_, fun j c' hc' hafter => ?_⟩
  · have hne : j ≠ k := by
      rintro rfl
      rw [h.fresh j hj] at hcall
      cases hcall
    simp only [Function.update_of_ne hne]
    exact h.fresh j hj
  · by_cases hj : j = k
    · subst hj
      have hphase := hbefore { c with phase := phase } (by simp)
      by_cases hpush : c.phase = .push
      · rw [hpush] at hb
        rw [(Block.added_push hb).2] at hphase
        cases hphase
      · rw [hfrom, pushed_of_ne hacc hpush, List.filter_nil, List.append_nil]
        refine h.before j m fun c' hc' => ?_
        cases hcall.symm.trans hc'
        exact (Block.acceptInputAsync_phase hb hpush).1 hphase
    · rw [fromCall_step_of_ne hs (hother j m hj)]
      refine h.before j m fun c' hc' => hbefore c' ?_
      simpa [Function.update_of_ne hj] using hc'
  · by_cases hj : j = k
    · subst hj
      simp only [Function.update_self, Option.some.injEq] at hc'
      subst hc'
      rw [hfrom]
      by_cases hpush : c.phase = .push
      · have hnil := h.before j c.node fun c' hc' => by
          cases hcall.symm.trans hc'
          rw [hpush]
          rfl
        simp [hnil, pushed, hacc, hpush]
      · rw [pushed_of_ne hacc hpush, List.filter_nil, List.append_nil]
        exact h.after j c hcall ((Block.acceptInputAsync_phase hb hpush).2 hafter)
    · rw [fromCall_step_of_ne hs (hother j _ hj)]
      simp only [Function.update_of_ne hj] at hc'
      exact h.after j c' hc' hafter

theorem step (h : CallInv s) (hs : s.step N a = some s') : CallInv s' := by
  cases calls_cases hs with
  | made n item =>
    have hfrom := fun k m => fromCall_step_of_ne hs (k := k) (n := m) nofun
    refine ⟨fun k hk => ?_, fun k m hb => ?_, fun k c hc ha => ?_⟩
    · have hle : s.calls + 1 ≤ k := hk
      have hne : k ≠ s.calls := by omega
      simp only [Function.update_of_ne hne]
      exact h.fresh k (by omega)
    · rw [hfrom]
      refine h.before k m fun c hc => hb c ?_
      have hne : k ≠ s.calls := by
        rintro rfl
        rw [h.fresh _ le_rfl] at hc
        cases hc
      simpa [Function.update_of_ne hne] using hc
    · rw [hfrom]
      by_cases hk : k = s.calls
      · subst hk
        simp only [Function.update_self, Option.some.injEq] at hc
        subst hc
        cases ha
      · simp only [Function.update_of_ne hk] at hc
        exact h.after k c hc ha
  | ran hc hb => exact h.runCall hs hc hb
  | kept hc hcs hpushed =>
    have hfrom := fun k m => fromCall_step_of_ne hs fun x hx => hpushed m x hx k
    refine ⟨?_, ?_, ?_⟩
    · rw [hc, hcs]
      exact h.fresh
    · intro k n hb
      rw [hfrom]
      rw [hc] at hb
      exact h.before k n hb
    · intro k c hk ha
      rw [hfrom]
      rw [hc] at hk
      exact h.after k c hk ha

theorem lt_calls (h : CallInv s) {k : ℕ} {c : AcceptCall Node Item ε} (hk : s.call k = some c) :
    k < s.calls := by
  by_contra hge
  rw [h.fresh k (by omega)] at hk
  cases hk

/-- An added item of a call of the user is the item of that call, which has got past its push. -/
theorem exists_call (h : CallInv s) {n : Node} {x : QueueItem Node Item}
    (hx : x ∈ (s.block n).inputItems.added) {k : ℕ} (hk : x.origin = .user k) :
    ∃ c, s.call k = some c ∧ c.phase.before = false ∧
      (c.phase.after → c.node = n → x = ⟨.user k, c.item⟩) := by
  have hmem : x ∈ s.fromCall k n := List.mem_filter.mpr ⟨hx, by simpa using hk⟩
  obtain ⟨c, hc, hbefore⟩ : ∃ c, s.call k = some c ∧ c.phase.before = false := by
    by_contra hno
    rw [h.before k n fun c hc => by
      by_contra hb
      exact hno ⟨c, hc, by simpa using hb⟩] at hmem
    exact List.not_mem_nil hmem
  refine ⟨c, hc, hbefore, ?_⟩
  rintro hafter rfl
  rw [h.after k c hc hafter] at hmem
  exact List.mem_singleton.mp hmem

end CallInv

end Dataflow

theorem reachable_callInv {N : Network Node Item σ ε} {s : Dataflow Node Item σ ε}
    {G : Dataflow Node Item σ ε → DataflowLabel Node Item ε → Prop}
    (h : (dataflowMachine N).Reachable G s) : s.CallInv :=
  h.invariant ⟨fun _ _ => rfl, fun _ _ _ => rfl, nofun⟩ fun _ _ _ hi _ hs => hi.step hs

/-! ## Completed blocks -/

/-- Nobody adds an item to a queue that was emptied for the last time. -/
def PushBeforeDrain (s : Dataflow Node Item σ ε) (a : DataflowLabel Node Item ε) : Prop :=
  ∀ c x, s.accepting a = some (c, x, .push) → (s.block c).processingTask.closed = false

theorem reachable_queueInv {N : Network Node Item σ ε} {s : Dataflow Node Item σ ε}
    (h : (dataflowMachine N).Reachable PushBeforeDrain s) (n : Node) : QueueInv (s.block n) := by
  refine reachable_closed (QueueInv.closed_ops N) ?_ ?_ h n
  · intro n
    exact ⟨rfl, fun _ => rfl, fun _ => rfl, fun _ _ => rfl, nofun⟩
  · rintro s a hg c x phase hacc rfl
    exact hg c x hacc

/-- A block whose `Completion()` is completed has run the items that were added, in order. -/
theorem ran_eq_added {N : Network Node Item σ ε} {s : Dataflow Node Item σ ε}
    (h : (dataflowMachine N).Reachable PushBeforeDrain s) {n : Node}
    (hc : (s.block n).completedTask.state.isCompleted) :
    (s.block n).ran = (s.block n).inputItems.added := by
  have hq := reachable_queueInv h n
  have hfin : (s.block n).processingTask = .finished (.ok ()) := by
    refine (reachable_taskInv h n).completed fun hnil => ?_
    rw [hnil] at hc
    cases hc
  have hran := hq.ran (by rw [hfin]; rfl)
  have hhand : (s.block n).hand = [] := by simp [Block.hand, hfin]
  have hnil := hq.closed (by rw [hfin]; rfl)
  rw [hq.order, hran, hhand, hnil]
  simp

/-- A call that returned has added its item once, and the completed block has run it once. -/
theorem ran_of_returned {N : Network Node Item σ ε} {s : Dataflow Node Item σ ε}
    (h : (dataflowMachine N).Reachable PushBeforeDrain s) {k : ℕ} {c : AcceptCall Node Item ε}
    (hk : s.call k = some c) (hret : c.phase = .returned)
    (hc : (s.block c.node).completedTask.state.isCompleted) :
    (s.block c.node).ran.filter (fun x => x.origin = .user k) = [⟨.user k, c.item⟩] := by
  rw [ran_eq_added h hc]
  exact (reachable_callInv h).after k c hk (by rw [hret]; rfl)

end AsyncCpp.DataFlow
