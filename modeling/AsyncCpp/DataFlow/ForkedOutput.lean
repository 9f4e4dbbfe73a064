import AsyncCpp.DataFlow.BlockInvariant

/-!
# Forked output

`propagateOutput` first asks all next blocks and then offers the item to those that answered
true, one after the other (DataFlowBlockCommon.h:296-334). A block that has stopped in between
throws from `AcceptInputAsync`; the exception ends the coroutine, whose task nobody looks at,
and the blocks after it do not get the item.

Results:
* `forked_output_reaches_branches`: every branch that accepted the item and is started when
  the propagation ends has got it, in the runs in which no block throws from
  `AcceptInputAsync` while a later one that accepted is started.
* `not_forked_output_reaches_branches`: a fork whose first branch is completed in between.
-/

namespace AsyncCpp.DataFlow

open Interleaving Tasks AsyncPrimitives

variable {Node Item σ ε : Type*}

/-- A `propagateOutput` that has ended. `accepting` are the next blocks that answered true to
    `CanAcceptInput` and `enqueued` those whose queue the item was added to, both in order;
    `started` are the accepting ones that were started at the end. -/
structure Propagation (Node Item : Type*) where
  source : Node
  item : Item
  accepting : List Node
  enqueued : List Node
  started : List Node

/-- Every connection to a block that answered true and is still started carried the item once,
    and the connections carried it in their order. -/
structure Propagation.Delivered [DecidableEq Node] (r : Propagation Node Item) : Prop where
  once : ∀ c ∈ r.started, r.enqueued.count c = r.accepting.count c
  order : r.enqueued.Sublist r.accepting

/-- The network with its propagations: of the block `n`, the blocks that answered true and
    those that got the item so far. -/
structure ForkedDataflow (Node Item σ ε : Type*) where
  flow : Dataflow Node Item σ ε
  accepting : Node → List Node := fun _ => []
  enqueued : Node → List Node := fun _ => []
  ended : List (Propagation Node Item) := []

/-- The block whose queue the step of `AcceptInputAsync` adds the item to. -/
def AcceptPhase.enqueues : AcceptPhase ε → List Node → List Node
  | .push, c :: _ => [c]
  | _, _ => []

/-- The blocks that have still to get the item. -/
def AcceptPhase.remaining : AcceptPhase ε → List Node → List Node
  | .throwIfNotStarted, offer | .push, offer => offer
  | .release, offer | .releasing, offer | .returned, offer | .threw _, offer => offer.tail

/-- The second loop of `propagateOutput`. -/
def Processing.isOffering : Processing Node Item ε → Bool
  | .offering _ _ _ _ => true
  | _ => false

variable [DecidableEq Node]

namespace ForkedDataflow

/-- The processing task of `n` has gone on to `flow`. -/
def record (s : ForkedDataflow Node Item σ ε) (n : Node) (flow : Dataflow Node Item σ ε) :
    ForkedDataflow Node Item σ ε :=
  match (s.flow.block n).processingTask with
  | .asking _ [] offer _ =>
    { s with
      flow := flow
      accepting := Function.update s.accepting n offer
      enqueued := Function.update s.enqueued n [] }
  | .offering y phase offer _ =>
    let enqueued := s.enqueued n ++ phase.enqueues offer
    { s with
      flow := flow
      enqueued := Function.update s.enqueued n enqueued
      ended :=
        if (flow.block n).processingTask.isOffering then s.ended
        else
          s.ended ++ [{
            source := n, item := y, accepting := s.accepting n, enqueued := enqueued
            started := (s.accepting n).filter fun c => (flow.block c).state = .started }] }
  | _ => { s with flow := flow }

def step (N : Network Node Item σ ε) (s : ForkedDataflow Node Item σ ε)
    (a : DataflowLabel Node Item ε) : Option (ForkedDataflow Node Item σ ε) :=
  (s.flow.step N a).map fun flow =>
    match a with
    | .process n => s.record n flow
    | _ => { s with flow := flow }

end ForkedDataflow

/-- While a block that answered true and comes later is started, the block that the item is
    offered to is started when `AcceptInputAsync` looks, and its semaphore is not full at
    `Release()`. -/
def BranchGoesOn (s : ForkedDataflow Node Item σ ε) : DataflowLabel Node Item ε → Prop
  | .process n => ∀ y phase c offer rest,
    (s.flow.block n).processingTask = .offering y phase (c :: offer) rest →
      (∃ d ∈ offer, (s.flow.block d).state = .started) →
        (phase = .throwIfNotStarted → (s.flow.block c).state = .started) ∧
          (phase = .release → ¬ (s.flow.block c).full)
  | _ => True

/-- What has been offered and what is still to be offered is what was accepted. -/
structure ForkedInv (s : ForkedDataflow Node Item σ ε) : Prop where
  offering : ∀ n y phase offer rest,
    (s.flow.block n).processingTask = .offering y phase offer rest →
      s.accepting n = s.enqueued n ++ phase.remaining offer
  ended : ∀ r ∈ s.ended, r.Delivered

/-- A propagation that ends while no block it has still to offer the item to is started. -/
theorem Propagation.delivered_of_remaining {source : Node} {item : Item}
    {enqueued remaining : List Node} {started : Node → Prop} [DecidablePred started]
    (h : ∀ c ∈ remaining, ¬ started c) :
    Propagation.Delivered {
      source := source, item := item, accepting := enqueued ++ remaining, enqueued := enqueued
      started := (enqueued ++ remaining).filter fun c => started c } where
  once c hc := by
    have hstarted : started c := by simpa using (List.mem_filter.mp hc).2
    have hzero : remaining.count c = 0 :=
      List.count_eq_zero.mpr fun hmem => h c hmem hstarted
    rw [List.count_append, hzero, Nat.add_zero]
  order := List.sublist_append_left enqueued remaining

namespace Dataflow

variable {N : Network Node Item σ ε} {s s' : Dataflow Node Item σ ε} {n : Node}

/-- Only the processing task of `n` itself enters or leaves its second loop. -/
theorem offering_step_of_ne {a : DataflowLabel Node Item ε} (hs : s.step N a = some s')
    (hne : a ≠ .process n) {y : Item} {phase : AcceptPhase ε} {offer : List Node}
    {rest : Option (List (QueueItem Node Item))}
    (hp : (s'.block n).processingTask = .offering y phase offer rest) :
    (s.block n).processingTask = .offering y phase offer rest := by
  have hclosed : ClosedCalls fun m (b : Block Node Item σ ε) =>
      b.processingTask = .offering y phase offer rest →
        (s.block m).processingTask = .offering y phase offer rest := {
    start := fun h hs hp => by
      rcases (Block.start_eq hs).2 with hsame | ⟨-, hstart⟩
      · exact h (hsame ▸ hp)
      · cases hstart.symm.trans hp
    completeCommon := fun h hs => by rw [Block.completeCommon_eq hs]; exact h
    advance := fun h hs => by rw [(Block.advance_eq hs).1]; exact h
    resumed := fun h => h
    throwing := fun h _ => h
    faultThread := fun h => h }
  refine hclosed.step_of_ne (fun _ => id) hne (fun c x phase' b' phase'' _ hb => ?_) hs hp
  rw [Block.acceptInputAsync_eq hb]
  exact id

theorem process_state (hs : s.step N (.process n) = some s') (m : Node) :
    (s'.block m).state = (s.block m).state := by
  refine step_congr (f := Block.state) (fun _ _ _ hb => ?_) (fun _ _ => rfl) (fun _ _ => rfl) hs
    rfl m
  cases Block.process_cases hb <;> rfl

end Dataflow

namespace ForkedDataflow

variable {s : ForkedDataflow Node Item σ ε} {flow : Dataflow Node Item σ ε} {n : Node}

/-- The propagation goes on to `phase'`, or ends. -/
theorem record_offering {y : Item} {phase : AcceptPhase ε} {offer : List Node}
    {rest : Option (List (QueueItem Node Item))}
    (hp : (s.flow.block n).processingTask = .offering y phase offer rest) :
    s.record n flow = {
      flow := flow, accepting := Function.update s.accepting n (s.accepting n)
      enqueued := Function.update s.enqueued n (s.enqueued n ++ phase.enqueues offer)
      ended :=
        if (flow.block n).processingTask.isOffering then s.ended
        else
          s.ended ++ [{
            source := n, item := y, accepting := s.accepting n
            enqueued := s.enqueued n ++ phase.enqueues offer
            started := (s.accepting n).filter fun c => (flow.block c).state = .started }] } := by
  simp only [record, hp, Function.update_eq_self]

theorem record_of_taking {i : ℕ} (hp : (s.flow.block n).processingTask = .taking i) :
    s.record n flow = { s with flow := flow } := by
  simp only [record, hp]

end ForkedDataflow

namespace ForkedInv

variable {N : Network Node Item σ ε} {s : ForkedDataflow Node Item σ ε}
  {flow : Dataflow Node Item σ ε} {n : Node}

/-- A step that leaves the second loops of the blocks other than `n` alone. -/
theorem update (h : ForkedInv s) (hother : ∀ m, m ≠ n → ∀ y phase offer rest,
      (flow.block m).processingTask = .offering y phase offer rest →
        (s.flow.block m).processingTask = .offering y phase offer rest)
    {accepting enqueued : List Node} {ended : List (Propagation Node Item)}
    (hn : ∀ y phase offer rest, (flow.block n).processingTask = .offering y phase offer rest →
      accepting = enqueued ++ phase.remaining offer)
    (hended : ∀ r ∈ ended, r.Delivered) :
    ForkedInv {
      flow := flow, accepting := Function.update s.accepting n accepting
      enqueued := Function.update s.enqueued n enqueued, ended := ended } := by
  refine ⟨fun m y phase offer rest hp => ?_, hended⟩
  by_cases hm : m = n
  · subst hm
    simp only [Function.update_self]
    exact hn y phase offer rest hp
  · simp only [Function.update_of_ne hm]
    exact h.offering m y phase offer rest (hother m hm y phase offer rest hp)

/-- A step of the second loop: the propagation goes on, or ends while no block is started that
    the item has still to be offered to. -/
theorem offered (h : ForkedInv s) {y : Item} {phase : AcceptPhase ε} {offer : List Node}
    {rest : Option (List (QueueItem Node Item))}
    (hp : (s.flow.block n).processingTask = .offering y phase offer rest)
    (hother : ∀ m, m ≠ n → ∀ y phase offer rest,
      (flow.block m).processingTask = .offering y phase offer rest →
        (s.flow.block m).processingTask = .offering y phase offer rest)
    {remaining : List Node}
    (hsplit : phase.remaining offer = phase.enqueues offer ++ remaining)
    (hnext : (∃ phase' offer', (flow.block n).processingTask = .offering y phase' offer' rest ∧
        phase'.remaining offer' = remaining) ∨
      (flow.block n).processingTask.isOffering = false ∧
        ∀ c ∈ remaining, (flow.block c).state ≠ .started) :
    ForkedInv (s.record n flow) := by
  have hacc : s.accepting n = (s.enqueued n ++ phase.enqueues offer) ++ remaining := by
    rw [h.offering n y phase offer rest hp, hsplit, List.append_assoc]
  rw [ForkedDataflow.record_offering hp]
  rcases hnext with ⟨phase', offer', hp', hrem⟩ | ⟨hoff, hstop⟩
  · refine h.update hother (fun y₂ phase₂ offer₂ rest₂ hp₂ => ?_) ?_
    · cases hp'.symm.trans hp₂
      rw [hrem]
      exact hacc
    · rw [hp']
      exact h.ended
  · refine h.update hother (fun y₂ phase₂ offer₂ rest₂ hp₂ => ?_) ?_
    · rw [hp₂] at hoff
      cases hoff
    · rw [if_neg (by rw [hoff]; nofun)]
      intro r hr
      rcases List.mem_append.mp hr with hr | hr
      · exact h.ended r hr
      · rw [List.mem_singleton.mp hr, hacc]
        exact Propagation.delivered_of_remaining hstop

omit [DecidableEq Node] in
theorem next_not_offering (rest : Option (List (QueueItem Node Item))) :
    (Processing.next rest : Processing Node Item ε).isOffering = false := by
  rcases rest with _ | _ | _ <;> rfl

/-- Nothing happens to the propagation of `n`. -/
theorem quiet (h : ForkedInv s) (hall : ∀ m y phase offer rest,
      (flow.block m).processingTask = .offering y phase offer rest →
        (s.flow.block m).processingTask = .offering y phase offer rest) :
    ForkedInv { s with flow := flow } :=
  ⟨fun m y phase offer rest hp => h.offering m y phase offer rest (hall m y phase offer rest hp),
    h.ended⟩

/-- The item is offered to block `c`. -/
theorem accept (h : ForkedInv s) {y : Item} {phase phase' : AcceptPhase ε} {c : Node}
    {offer : List Node} {rest : Option (List (QueueItem Node Item))} {bc : Block Node Item σ ε}
    (hg : BranchGoesOn s (.process n))
    (hp : (s.flow.block n).processingTask = .offering y phase (c :: offer) rest)
    (hother : ∀ m, m ≠ n → ∀ y phase offer rest,
      (flow.block m).processingTask = .offering y phase offer rest →
        (s.flow.block m).processingTask = .offering y phase offer rest)
    (hstate : ∀ m, (flow.block m).state = (s.flow.block m).state)
    (hb : (s.flow.block c).acceptInputAsync ⟨.block n, y⟩ phase = some (bc, phase'))
    (hn : (flow.block n).processingTask = DataFlow.offered y c offer rest phase') :
    ForkedInv (s.record n flow) := by
  have hgoesOn := hg y phase c offer rest hp
  have hreleased : ∀ q : AsyncCollection Unit (QueueItem Node Item) ε,
      phase' = .afterRelease q → ∃ phase₂ offer₂,
        (flow.block n).processingTask = .offering y phase₂ offer₂ rest ∧
          phase₂.remaining offer₂ = offer := by
    rintro q rfl
    rw [hn]
    unfold AcceptPhase.afterRelease
    split_ifs
    · exact ⟨.throwIfNotStarted, offer, rfl, rfl⟩
    · exact ⟨.releasing, c :: offer, rfl, rfl⟩
  cases Block.acceptInputAsync_cases hb with
  | started hst => exact h.offered hp hother rfl (.inl ⟨.push, c :: offer, hn, rfl⟩)
  | notStarted hst =>
    refine h.offered hp hother rfl (.inr ⟨?_, fun d hd => ?_⟩)
    · rw [hn]
      exact next_not_offering rest
    · rw [hstate]
      rcases List.mem_cons.mp hd with rfl | hd
      · exact hst
      · exact fun hd' => hst ((hgoesOn ⟨d, hd, hd'⟩).1 rfl)
  | push hq => exact h.offered hp hother rfl (.inl ⟨.release, c :: offer, hn, rfl⟩)
  | full hq hfull =>
    refine h.offered hp hother rfl (.inr ⟨?_, fun d hd hd' => ?_⟩)
    · rw [hn]
      exact next_not_offering rest
    · rw [hstate] at hd'
      exact (hgoesOn ⟨d, hd, hd'⟩).2 rfl hfull
  | release hq hfull | releasing hq => exact h.offered hp hother rfl (.inl (hreleased _ rfl))

theorem process (h : ForkedInv s) (hg : BranchGoesOn s (.process n))
    (hs : s.flow.step N (.process n) = some flow) : ForkedInv (s.record n flow) := by
  have hstate := Dataflow.process_state hs
  have hother : ∀ m, m ≠ n → ∀ y phase offer rest,
      (flow.block m).processingTask = .offering y phase offer rest →
        (s.flow.block m).processingTask = .offering y phase offer rest := by
    intro m hm y phase offer rest hp
    exact Dataflow.offering_step_of_ne hs (fun heq => hm (by cases heq; rfl)) hp
  -- the task of `n` was not in its second loop, and is not now
  have hquiet : (flow.block n).processingTask.isOffering = false →
      ForkedInv { s with flow := flow } := by
    intro hoff
    refine h.quiet fun m y phase offer rest hp => ?_
    by_cases hm : m = n
    · subst hm
      rw [hp] at hoff
      cases hoff
    · exact hother m hm y phase offer rest hp
  unfold Dataflow.step at hs
  split_ifs at hs
  rcases Dataflow.process_cases hs with ⟨y, c, ask, offer, rest, hp, -, rfl⟩ |
    ⟨y, phase, c, offer, rest, bc, phase', hp, hb, rfl⟩ | ⟨b, hb, rfl⟩
  · simp only [ForkedDataflow.record, hp]
    refine hquiet ?_
    rw [Dataflow.set_block_self]
    rfl
  · exact h.accept hg hp hother hstate hb (by rw [Dataflow.set_block_self])
  · cases Block.process_cases hb with
    | @asked y offer rest hp =>
      simp only [ForkedDataflow.record, hp]
      refine h.update hother (fun y₂ phase₂ offer₂ rest₂ hp₂ => ?_) h.ended
      rw [Dataflow.set_block_self] at hp₂
      cases hp₂
      rfl
    | @propagated y phase rest hp =>
      have hsplit : phase.remaining ([] : List Node) = phase.enqueues [] ++ [] := by
        cases phase <;> rfl
      refine h.offered hp hother hsplit (.inr ⟨?_, nofun⟩)
      rw [Dataflow.set_block_self]
      exact next_not_offering rest
    | drained hp hq =>
      simp only [ForkedDataflow.record, hp]
      refine hquiet ?_
      rw [Dataflow.set_block_self]
      exact next_not_offering _
    | waiting hp hq | resume hp ho hq =>
      rw [ForkedDataflow.record_of_taking hp]
      refine hquiet ?_
      rw [Dataflow.set_block_self]
      dsimp only
      rw [hp]
      rfl
    | started hp | canceled hp | take hp | took hp | retry hp | takeFailed hp | invoked hp
    | threw hp | reported hp =>
      simp only [ForkedDataflow.record, hp]
      refine hquiet ?_
      rw [Dataflow.set_block_self]
      rfl

theorem step (h : ForkedInv s) {a : DataflowLabel Node Item ε} {s' : ForkedDataflow Node Item σ ε}
    (hg : BranchGoesOn s a) (hs : s.step N a = some s') : ForkedInv s' := by
  obtain ⟨flow, hf, rfl⟩ := Option.map_eq_some_iff.mp hs
  have hquiet : (∀ m, a ≠ .process m) → ForkedInv { s with flow := flow } := by
    intro hne
    exact h.quiet fun m _ _ _ _ hp => Dataflow.offering_step_of_ne hf (hne m) hp
  cases a with
  | process n => exact h.process hg hf
  | _ => exact hquiet nofun

end ForkedInv

end AsyncCpp.DataFlow
