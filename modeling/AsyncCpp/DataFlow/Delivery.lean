import Mathlib.Data.Fintype.EquivFin
import Mathlib.Order.WellFounded
import AsyncCpp.DataFlow.BlockRun

/-!
# Exactly-once delivery

Each connection carries what the function of the block before it produces and the block
after it accepts: what was added to the queue, and then what `propagateOutput` has still to
add.

Results:
* `exactly_once_delivery`: in every run in which no `Release()` of an `AcceptInputAsync`
  finds its semaphore full, a completed block has run its function on what its parents
  produced and it accepts, once each and in the order of each parent, and on nothing else;
  the root on the items of the calls of the user that returned.
-/

namespace AsyncCpp.DataFlow

open Interleaving Tasks AsyncPrimitives

variable {Node Item σ ε : Type*} [DecidableEq Node]

/-! ## One connection -/

/-- What the processing task has produced and has still to add to the queue of `c`. -/
def Processing.owed (N : Network Node Item σ ε) (c : Node) : Processing Node Item ε → List Item
  | .asking y ask offer _ => if c ∈ offer ++ ask.filter (N.canAcceptFunc · y) then [y] else []
  | .offering y phase offer _ =>
    if c ∈ (if phase.before then offer else offer.tail) then [y] else []
  | _ => []

/-- What block `p` has produced for `c` when its function was called on `xs`. -/
def Network.producedFor (N : Network Node Item σ ε) (p c : Node)
    (xs : List (QueueItem Node Item)) : List Item :=
  if c ∈ N.outputNodes p then (N.produced p xs).1.filter (N.canAcceptFunc c) else []

/-- The items that block `p` has added to the queue of `c`. -/
def Dataflow.addedBy (s : Dataflow Node Item σ ε) (p c : Node) : List Item :=
  ((s.block c).inputItems.added.filter fun x => x.origin = .block p).map QueueItem.item

/-- On each connection, what was added and what is owed is what was produced. -/
def DeliveryInv (N : Network Node Item σ ε) (s : Dataflow Node Item σ ε) : Prop :=
  ∀ p c, s.addedBy p c ++ (s.block p).processingTask.owed N c =
    N.producedFor p c (s.block p).ran

theorem Network.producedFor_append {N : Network Node Item σ ε} {p : Node}
    {b : Block Node Item σ ε} (hw : WorkInv N p b) {x : QueueItem Node Item} {y : Item} {st : σ}
    (hf : N.transformFunc p b.nodeState x.item = (.ok y, st)) (c : Node) :
    N.producedFor p c (b.ran ++ [x]) = N.producedFor p c b.ran ++
      if c ∈ (N.outputNodes p).filter (N.canAcceptFunc · y) then [y] else [] := by
  have hprod : (N.produced p (b.ran ++ [x])).1 = (N.produced p b.ran).1 ++ [y] := by
    rw [N.produced_append]
    simp only [produce, ← hw.nodeState, hf]
  unfold producedFor
  by_cases hc : c ∈ N.outputNodes p
  · cases hacc : N.canAcceptFunc c y <;> simp [hc, hprod, hacc, List.filter_append]
  · simp [hc]

omit [DecidableEq Node] in
/-- The phases of an `AcceptInputAsync` of a started block whose semaphore is not full. -/
theorem Block.acceptInputAsync_next {b b' : Block Node Item σ ε} {x : QueueItem Node Item}
    {phase phase' : AcceptPhase ε} (hst : b.state = .started) (hroom : phase = .release → ¬ b.full)
    (h : b.acceptInputAsync x phase = some (b', phase')) :
    (phase = .throwIfNotStarted ∧ phase' = .push) ∨ (phase = .push ∧ phase' = .release) ∨
      ((phase = .release ∨ phase = .releasing) ∧ (phase' = .returned ∨ phase' = .releasing)) := by
  have hafter : ∀ q : AsyncCollection Unit (QueueItem Node Item) ε,
      AcceptPhase.afterRelease q = .returned ∨ AcceptPhase.afterRelease q = .releasing := by
    intro q
    unfold AcceptPhase.afterRelease
    split_ifs
    · exact .inl rfl
    · exact .inr rfl
  cases phase with
  | throwIfNotStarted =>
    simp only [acceptInputAsync, hst, if_true] at h
    split_ifs at h
    cases h
    exact .inl ⟨rfl, rfl⟩
  | push => exact .inr (.inl ⟨rfl, (added_push h).2⟩)
  | release =>
    simp only [acceptInputAsync, Option.map_eq_some_iff, if_neg (hroom rfl)] at h
    obtain ⟨q, -, h⟩ := h
    cases h
    exact .inr (.inr ⟨.inl rfl, hafter q⟩)
  | releasing =>
    simp only [acceptInputAsync, Option.map_eq_some_iff] at h
    obtain ⟨q, -, h⟩ := h
    cases h
    exact .inr (.inr ⟨.inr rfl, hafter q⟩)
  | returned | threw e => cases h

namespace Dataflow

variable {N : Network Node Item σ ε} {root p c : Node} {s s' : Dataflow Node Item σ ε}
  {a : DataflowLabel Node Item ε}

theorem addedBy_step (hs : s.step N a = some s') (p c : Node) :
    s'.addedBy p c = s.addedBy p c ++
      ((s.pushed a c).filter fun x => x.origin = .block p).map QueueItem.item := by
  unfold addedBy
  rw [added_step hs, List.filter_append, List.map_append]

/-- A step that adds nothing for block `p`. -/
theorem addedBy_step_of_ne (hs : s.step N a = some s')
    (h : ∀ x ∈ s.pushed a c, x.origin ≠ .block p) : s'.addedBy p c = s.addedBy p c := by
  rw [addedBy_step hs, List.filter_eq_nil_iff.mpr fun x hx => by simpa using h x hx,
    List.map_nil, List.append_nil]

/-- Only the processing task of block `p` adds items for it. -/
theorem origin_of_pushed (hne : a ≠ .process p) {x : QueueItem Node Item}
    (hx : x ∈ s.pushed a c) : x.origin ≠ .block p := by
  have hacc := mem_pushed hx
  cases a with
  | runCall k =>
    simp only [accepting, Option.map_eq_some_iff, Prod.mk.injEq] at hacc
    obtain ⟨call, -, -, rfl, -⟩ := hacc
    simp
  | process q =>
    rw [origin_of_pushed_process hx]
    rintro ⟨⟩
    exact hne rfl
  | _ => cases hacc

/-- What a step that is not one of the processing task leaves of its work. -/
theorem work_closed (s : Dataflow Node Item σ ε) :
    ClosedCalls fun m (b : Block Node Item σ ε) => b.ran = (s.block m).ran ∧
      ∀ c, b.processingTask.owed N c = (s.block m).processingTask.owed N c where
  start h hs := by
    obtain ⟨heq, hp | ⟨hp, hp'⟩⟩ := Block.start_eq hs
    · rw [heq, hp]
      exact h
    · rw [heq, hp']
      rw [hp] at h
      exact h
  completeCommon h hs := by rw [Block.completeCommon_eq hs]; exact h
  advance h hs := by rw [(Block.advance_eq hs).1]; exact h
  resumed h := h
  throwing h _ := h
  faultThread h := h

theorem work_step (hs : s.step N a = some s') (hne : a ≠ .process p) :
    (s'.block p).ran = (s.block p).ran ∧ ∀ c,
      (s'.block p).processingTask.owed N c = (s.block p).processingTask.owed N c := by
  refine (work_closed s).step_of_ne (fun _ => ⟨rfl, fun _ => rfl⟩) hne ?_ hs
  intro c x phase b' phase' _ hb
  rw [Block.acceptInputAsync_eq hb]
  exact ⟨rfl, fun _ => rfl⟩

end Dataflow

namespace DeliveryInv

open Dataflow

variable {N : Network Node Item σ ε} {root p : Node} {s s' : Dataflow Node Item σ ε}

theorem owed_next (c : Node) (rest : Option (List (QueueItem Node Item))) :
    (Processing.next rest : Processing Node Item ε).owed N c = [] := by
  rcases rest with _ | _ | _ <;> rfl

/-- A step of the processing task inside its block. -/
theorem process_inside (h : DeliveryInv N s) (hw : WorkInv N p (s.block p)) (hok : N.Returns)
    {b : Block Node Item σ ε} (hb : (s.block p).process N p = some b) (c : Node) :
    s.addedBy p c ++ b.processingTask.owed N c = N.producedFor p c b.ran := by
  have hpc := h p c
  cases Block.process_cases hb with
  | started hp | canceled hp | take hp | took hp | retry hp | takeFailed hp | reported hp =>
    rw [hp] at hpc
    exact hpc
  | waiting hp | resume hp => exact hpc
  | drained hp hq =>
    rw [hp] at hpc
    simp only [owed_next]
    exact hpc
  | propagated hp =>
    rw [hp] at hpc
    simp only [owed_next]
    simpa [Processing.owed] using hpc
  | asked hp =>
    rw [hp] at hpc
    simpa [Processing.owed, AcceptPhase.before] using hpc
  | invoked hp hf =>
    rw [hp] at hpc
    rw [Network.producedFor_append hw hf, ← hpc]
    simp [Processing.owed]
  | threw hp hf =>
    obtain ⟨y, st, hy⟩ := hok p (s.block p).nodeState _
    cases hf.symm.trans hy

/-- `propagateOutput` asks a block that is started. -/
theorem owed_asked {y : Item} {d : Node} {ask offer : List Node}
    {rest : Option (List (QueueItem Node Item))} (hst : (s.block d).state = .started) (c : Node) :
    (Processing.asking y ask (if s.canAcceptInput N d y then offer ++ [d] else offer) rest :
        Processing Node Item ε).owed N c =
      (Processing.asking y (d :: ask) offer rest : Processing Node Item ε).owed N c := by
  have hcan : s.canAcceptInput N d y = N.canAcceptFunc d y := by
    simp [canAcceptInput, hst]
  rw [hcan]
  cases hacc : N.canAcceptFunc d y <;> simp [Processing.owed, hacc]

/-- `propagateOutput` adds its item to the queue of `d`. -/
theorem owed_push {y : Item} {d : Node} {offer : List Node}
    {rest : Option (List (QueueItem Node Item))} (hd : d ∉ offer) (c : Node) :
    (Processing.offering y .push (d :: offer) rest : Processing Node Item ε).owed N c =
      (if c = d then [y] else []) ++
        (DataFlow.offered y d offer rest (.release : AcceptPhase ε)).owed N c := by
  by_cases hc : c = d
  · subst hc
    simp [Processing.owed, DataFlow.offered, AcceptPhase.before, hd]
  · simp [Processing.owed, DataFlow.offered, AcceptPhase.before, hc]

/-- `propagateOutput` goes on in `AcceptInputAsync` of `d`, before or after its push. -/
theorem owed_offered {y : Item} {d : Node} {offer : List Node}
    {rest : Option (List (QueueItem Node Item))} {phase phase' : AcceptPhase ε}
    (hnext : (phase = .throwIfNotStarted ∧ phase' = .push) ∨
      ((phase = .release ∨ phase = .releasing) ∧ (phase' = .returned ∨ phase' = .releasing)))
    (c : Node) :
    (Processing.offering y phase (d :: offer) rest : Processing Node Item ε).owed N c =
      (DataFlow.offered y d offer rest phase').owed N c := by
  rcases hnext with ⟨rfl, rfl⟩ | ⟨rfl | rfl, rfl | rfl⟩ <;>
    simp [Processing.owed, DataFlow.offered, AcceptPhase.before]

/-- A step of the processing task of `p`. -/
theorem process (h : DeliveryInv N s) (hw : WorkInv N p (s.block p)) (hN : N.Acyclic)
    (hok : N.Returns)
    (hst : ∀ c ∈ (s.block p).processingTask.targets, (s.block c).state = .started)
    (hroom : Roomy s (.process p)) (hs : s.step N (.process p) = some s') (c : Node) :
    s'.addedBy p c ++ (s'.block p).processingTask.owed N c =
      N.producedFor p c (s'.block p).ran := by
  have hadded := addedBy_step hs p c
  have hpc := h p c
  unfold Dataflow.step at hs
  split_ifs at hs
  rcases process_cases hs with ⟨y, d, ask, offer, rest, hp, -, rfl⟩ |
    ⟨y, phase, d, offer, rest, bd, phase', hp, hb, rfl⟩ | ⟨b, hb, rfl⟩
  · have hd := hst d (by rw [hp]; simp [Processing.targets])
    rw [hadded]
    simp only [set_block_self, owed_asked hd]
    rw [hp] at hpc
    simpa [pushed, accepting, hp] using hpc
  · have hacc := accepting_process hp
    have hd : d ∉ offer := by
      have hnodup := hw.targets.nodup (hN.nodup p)
      rw [hp] at hnodup
      exact (List.nodup_cons.mp hnodup).1
    have hnext := Block.acceptInputAsync_next (hst d (by rw [hp]; exact List.mem_cons_self))
      (fun hr => hroom d _ (by rw [hacc, hr])) hb
    have hran : ((s.set d bd).block p).ran = (s.block p).ran := by
      refine forall_set (P := fun m b => b.ran = (s.block m).ran) (fun _ => rfl) ?_ p
      rw [Block.acceptInputAsync_eq hb]
    rw [hadded]
    simp only [set_block_self, hran]
    rw [hp] at hpc
    by_cases hpush : phase = .push
    · subst hpush
      obtain ⟨-, rfl⟩ := Block.added_push hb
      rw [owed_push hd] at hpc
      rw [pushed_of_push hacc, List.append_assoc, ← hpc]
      by_cases hc : c = d <;> simp [hc]
    · have howed : (Processing.offering y phase (d :: offer) rest).owed N c =
          (DataFlow.offered y d offer rest phase').owed N c := by
        rcases hnext with hnext | ⟨hr, -⟩ | hnext
        · exact owed_offered (.inl hnext) c
        · exact absurd hr hpush
        · exact owed_offered (.inr hnext) c
      rw [howed] at hpc
      rw [pushed_of_ne hacc hpush]
      simpa using hpc
  · have hpushed : s.pushed (.process p) c = [] := by
      refine List.eq_nil_iff_forall_not_mem.mpr fun x hx => ?_
      have hacc := mem_pushed hx
      simp only [accepting] at hacc
      split at hacc
      · rename_i hp
        simp only [Block.process, hp] at hb
        cases hb
      · cases hacc
    rw [hadded, hpushed]
    simpa using process_inside h hw hok hb c

end DeliveryInv

section Reachable

open Dataflow

variable {N : Network Node Item σ ε} {root : Node} {s s' : Dataflow Node Item σ ε}

theorem reachable_deliveryInv (hN : N.Acyclic) (hok : N.Returns)
    (h : (dataflowMachine N).Reachable (InRoom root) s) : DeliveryInv N s := by
  refine h.invariant_with (Q := fun s => ∀ p, WorkInv N p (s.block p) ∧
    ∀ c ∈ (s.block p).processingTask.targets, (s.block c).state = .started)
    (fun s hs p => ⟨reachable_workInv hs p, fun c => started_of_targets hN hok hs⟩) ?_ ?_
  · intro p c
    have hnil : N.producedFor p c [] = [] := by
      unfold Network.producedFor
      split_ifs <;> rfl
    exact hnil.symm
  · intro s a s' hQ hi hg hs p c
    by_cases hp : a = .process p
    · subst hp
      exact hi.process (hQ p).1 hN hok (hQ p).2 hg.2 hs c
    · obtain ⟨hran, howed⟩ := work_step hs hp
      rw [hran, howed, addedBy_step_of_ne hs fun x hx => origin_of_pushed hp hx]
      exact hi p c

/-- The items of the user are offered to the root. -/
theorem root_of_user (h : (dataflowMachine N).Reachable (InRoom root) s) {n : Node}
    {x : QueueItem Node Item} (hx : x ∈ (s.block n).inputItems.added) {k : ℕ}
    (hk : x.origin = .user k) : n = root := by
  refine h.invariant_with (I := fun s => ∀ n, ∀ x ∈ (s.block n).inputItems.added, ∀ k,
    x.origin = .user k → n = root) (Q := UserInv root) (fun s hs => reachable_userInv hs)
    (fun _ _ => nofun) (fun s a s' hu hi _ hs n x hx k hk => ?_) n x hx k hk
  rw [added_step hs] at hx
  rcases List.mem_append.mp hx with hx | hx
  · exact hi n x hx k hk
  · have hacc := mem_pushed hx
    cases a with
    | runCall j =>
      simp only [accepting, Option.map_eq_some_iff, Prod.mk.injEq] at hacc
      obtain ⟨call, hcall, hn, -⟩ := hacc
      rw [← hn]
      exact hu.node j call hcall
    | process q =>
      rw [origin_of_pushed_process hx] at hk
      cases hk
    | _ => cases hacc

/-- An item of a block was offered along a connection. -/
theorem mem_outputNodes_of_added (hN : N.Acyclic) (hok : N.Returns)
    (h : (dataflowMachine N).Reachable (InRoom root) s) {n p : Node} {x : QueueItem Node Item}
    (hx : x ∈ (s.block n).inputItems.added) (hp : x.origin = .block p) :
    n ∈ N.outputNodes p := by
  by_contra hn
  have heq := reachable_deliveryInv hN hok h p n
  rw [Network.producedFor, if_neg hn] at heq
  have hnil := (List.append_eq_nil_iff.mp heq).1
  simp only [addedBy, List.map_eq_nil_iff, List.filter_eq_nil_iff] at hnil
  exact hnil x hx (by simpa using hp)

/-- An item of the user that was added to the queue of the completed root is that of a call that
    returned. -/
theorem returned_of_added (hN : N.Acyclic) (hok : N.Returns)
    (h : (dataflowMachine N).Reachable (InRoom root) s) (hcl : (s.block root).state.isClosed)
    {x : QueueItem Node Item} (hx : x ∈ (s.block root).inputItems.added) {k : ℕ}
    (hk : x.origin = .user k) :
    ∃ c, s.call k = some c ∧ c.phase = .returned ∧ x = ⟨.user k, c.item⟩ := by
  obtain ⟨c, hc, hbefore, hitem⟩ := (reachable_callInv h).exists_call hx hk
  have hret : c.phase = .returned := by
    have hended := ended_of_closed hN hok h hcl hc
    cases hphase : c.phase with
    | returned => rfl
    | threw e =>
      rw [hphase, (reachable_userInv h).threw k c e hc hphase] at hbefore
      cases hbefore
    | _ =>
      rw [hphase] at hended
      cases hended
  exact ⟨c, hc, hret, hitem (by rw [hret]; rfl) ((reachable_userInv h).node k c hc)⟩

/-- A block whose `Completion()` is completed is closed. -/
theorem closed_of_completed {G : Dataflow Node Item σ ε → DataflowLabel Node Item ε → Prop}
    (h : (dataflowMachine N).Reachable G s) {n : Node}
    (hc : (s.block n).completedTask.state = .runToCompletion) : (s.block n).state.isClosed := by
  have hfin : (s.block n).processingTask = .finished (.ok ()) := by
    refine (reachable_taskInv h n).completed fun hnil => ?_
    rw [hnil] at hc
    cases hc
  exact (reachable_shapeInv h n).draining (.inr (by rw [hfin]; rfl))

end Reachable

/-! ## A fork -/

/-- Block 0 passes each item on to block 1, which accepts it, and to block 2, which accepts
    only `true`. -/
def fork : Network (Fin 3) Bool Unit Empty where
  outputNodes n := if n = 0 then [1, 2] else []
  canAcceptFunc n x := n ≠ 2 ∨ x
  transformFunc _ st x := (.ok x, st)
  initialState _ := ()

namespace Fork

open Dataflow

theorem nodup (p : Fin 3) : (fork.outputNodes p).Nodup := by
  revert p
  decide

theorem edge_lt {p c : Fin 3} (h : c ∈ fork.outputNodes p) : p < c := by
  revert p c
  decide

theorem acyclic (m : Fin 3) :
    ¬ Relation.TransGen (fun p c => c ∈ fork.outputNodes p) m m := by
  intro h
  have hlt : ∀ {c : Fin 3}, Relation.TransGen (fun p c => c ∈ fork.outputNodes p) m c → m < c := by
    intro c h
    induction h with
    | single he => exact edge_lt he
    | tail _ he ih => exact ih.trans (edge_lt he)
  exact lt_irrefl m (hlt h)

theorem returns : fork.Returns := fun _ _ item => ⟨item, (), rfl⟩

theorem produced (p : Fin 3) (xs : List (QueueItem (Fin 3) Bool)) :
    (fork.produced p xs).1 = xs.map QueueItem.item := by
  induction xs using List.reverseRecOn with
  | nil => rfl
  | append_singleton xs x ih =>
    rw [fork.produced_append, List.map_append, ← ih]
    rfl

/-- A block that `Start` has left, and whose processing task is at `p`. -/
def startedBlock (caller : Caller (Fin 3)) (next : List (Fin 3))
    (p : Processing (Fin 3) Bool Empty) (q : AsyncCollection Unit (QueueItem (Fin 3) Bool) Empty)
    (ran : List (QueueItem (Fin 3) Bool)) : Block (Fin 3) Bool Unit Empty where
  state := .started
  startCallsCount := 1
  startTask := (TaskSharedState.exec {} (.setResult () true))
  processingTask := p
  inputItems := q
  toStart := []
  toComplete := next
  nodeState := ()
  startedBy := [caller]
  ran := ran

/-- One item through blocks 0 and 1, and the completion of block 1. -/
theorem exists_passed : ∃ s, (dataflowMachine fork).Reachable (InRoom 0) s ∧
    (s.block 1).completedTask.state = .runToCompletion ∧
    (s.block 1).ran = [⟨.block 0, false⟩] := by
  refine ⟨_, .head (a := .start 0) rfl ⟨⟨rfl, nofun⟩, .of_hasRoom rfl⟩ <|
    (reaches_goesOn [.advance 0, .advance 1, .advance 0, .advance 2, .advance 0] rfl).trans <|
    .head (a := .acceptInputAsync 0 false) rfl ⟨⟨rfl, nofun⟩, .of_hasRoom rfl⟩ <|
    (reaches_goesOn (List.replicate 3 (DataflowLabel.runCall 0) ++
      List.replicate 12 (DataflowLabel.process 0)) rfl).trans <|
    .head (a := .complete 0) rfl ⟨⟨rfl, nofun, ?_⟩, .of_hasRoom rfl⟩ <|
    reaches_goesOn (List.replicate 4 (DataflowLabel.advance 0) ++
      List.replicate 2 (DataflowLabel.process 0) ++ List.replicate 2 (DataflowLabel.advance 0) ++
      List.replicate 4 (DataflowLabel.advance 1) ++ List.replicate 6 (DataflowLabel.process 1) ++
      [.advance 1]) rfl, rfl, rfl⟩
  intro k c hk
  cases k with
  | zero =>
    cases hk
    rfl
  | succ k => cases hk

/-- Block 0 is at `p` and has called its function on `ran`; block 1, whose processing task has
    not begun, has `count` permits in its queue. -/
structure At (p : Processing (Fin 3) Bool Empty) (s : Dataflow (Fin 3) Bool Unit Empty)
    (ran : List (QueueItem (Fin 3) Bool)) (count : ℤ) : Prop where
  running : s.terminated = false
  returned : ∀ k c, s.call k = some c → c.phase = .returned
  root : ∃ q, q.Stocked 0 [] ∧ s.block 0 = startedBlock .user [1, 2] p q ran
  child : ∃ q xs, q.Stocked count xs ∧ s.block 1 = startedBlock (.block 0) [] .awaitStart q []
  filtered : s.block 2 = startedBlock (.block 0) [] .awaitStart {} []

theorem stocked_empty : ({} : AsyncCollection Unit (QueueItem (Fin 3) Bool) Empty).Stocked 0 [] :=
  ⟨⟨rfl, rfl⟩, rfl, rfl, fun _ => rfl, rfl, fun _ _ => rfl⟩

theorem exists_started :
    ∃ s, (dataflowMachine fork).Reachable (UserDriven 0) s ∧ At .loop s [] 0 := by
  refine ⟨_, .head (a := .start 0) rfl ⟨rfl, nofun⟩ <| .head (a := .advance 0) rfl trivial <|
    .head (a := .advance 1) rfl trivial <| .head (a := .advance 0) rfl trivial <|
    .head (a := .advance 2) rfl trivial <| .head (a := .advance 0) rfl trivial <|
    .head (a := .process 0) rfl trivial .refl, rfl, nofun, ⟨{}, stocked_empty, rfl⟩,
    ⟨{}, [], stocked_empty, rfl⟩, rfl⟩

variable {s : Dataflow (Fin 3) Bool Unit Empty} {ran : List (QueueItem (Fin 3) Bool)} {count : ℤ}
  {p r : Processing (Fin 3) Bool Empty}

/-- Block 0 moves on. -/
theorem At.move (h : At p s ran count) :
    At r (s.set 0 { s.block 0 with processingTask := r }) ran count := by
  obtain ⟨q, hq, hb⟩ := h.root
  refine ⟨h.running, h.returned, ⟨q, hq, ?_⟩, h.child, h.filtered⟩
  rw [set_block_self, hb]
  rfl

theorem At.reaches_move (h : At p s ran count)
    (hs : s.process fork 0 = some (s.set 0 { s.block 0 with processingTask := r })) :
    ∃ s', (dataflowMachine fork).Reaches (UserDriven 0) s s' ∧ At r s' ran count :=
  ⟨_, .single (a := .process 0) trivial (step_process h.running hs), h.move⟩

/-- The user gives block 0 an item, and block 0 calls its function on it. -/
theorem At.exists_invoked (h : At .loop s ran count) (x : Bool) :
    ∃ s' k, (dataflowMachine fork).Reaches (UserDriven 0) s s' ∧
      At (.asking x [1, 2] [] none) s' (ran ++ [⟨.user k, x⟩]) count := by
  obtain ⟨q, hq, hb⟩ := h.root
  have hready : (s.block 0).Ready := by
    rw [hb]
    exact ⟨rfl, rfl, hq.toStill⟩
  have hphase : (s.block 0).putPhase = .returned := by
    rw [hb, Block.putPhase, if_neg]
    rw [Block.full, startedBlock, hq.count, hq.maxCount]
    decide
  have huser : .user ∉ (s.block 0).completedBy := by
    rw [hb]
    simp [startedBlock]
  have haccept := reaches_accept (N := fork) h.running huser hready x
  rw [hphase] at haccept
  obtain ⟨q', y, st, hq', hf, hrun⟩ := Block.exists_invoked (N := fork) (n := 0)
    (b := (s.block 0).put ⟨.user s.calls, x⟩) returns (by rw [hb]; rfl)
    (by rw [hb]; exact hq.put (by decide) _) (by decide)
  cases hf
  have hcalls : ∀ k c, Function.update s.call s.calls (some ⟨0, x, .returned⟩) k = some c →
      c.phase = .returned := by
    intro k c hk
    by_cases hkc : k = s.calls
    · rw [hkc, Function.update_self] at hk
      cases hk
      rfl
    · rw [Function.update_of_ne hkc] at hk
      exact h.returned k c hk
  refine ⟨_, s.calls, haccept.trans (reaches_local (n := 0) (by exact h.running) (by exact hrun)),
    h.running, hcalls, ⟨q', hq', ?_⟩, h.child, h.filtered⟩
  rw [set_block_self, hb]
  rfl

/-- Block 0 asks both blocks. -/
theorem At.exists_asked {x : Bool} (h : At (.asking x [1, 2] [] none) s ran count) :
    ∃ s', (dataflowMachine fork).Reaches (UserDriven 0) s s' ∧
      At (.offering x .throwIfNotStarted (if x then [1, 2] else [1]) none) s' ran count := by
  have hask : ∀ {s : Dataflow (Fin 3) Bool Unit Empty} {ask offer : List (Fin 3)} {c : Fin 3},
      At (.asking x (c :: ask) offer none) s ran count → c = 1 ∨ c = 2 →
        ∃ s', (dataflowMachine fork).Reaches (UserDriven 0) s s' ∧
          At (.asking x ask (if fork.canAcceptFunc c x then offer ++ [c] else offer) none) s' ran
            count := by
    intro s ask offer c h hc
    obtain ⟨q₀, -, h₀⟩ := h.root
    obtain ⟨q₁, -, -, h₁⟩ := h.child
    have hcb : (s.block c).stateMutex = none ∧ (s.block c).state = .started := by
      rcases hc with rfl | rfl
      · rw [h₁]
        exact ⟨rfl, rfl⟩
      · rw [h.filtered]
        exact ⟨rfl, rfl⟩
    refine h.reaches_move ?_
    rw [process_asking (by rw [h₀]; rfl) hcb.1]
    simp [canAcceptInput, hcb.2]
  obtain ⟨s₁, hr₁, h₁⟩ := hask h (.inl rfl)
  obtain ⟨s₂, hr₂, h₂⟩ := hask h₁ (.inr rfl)
  obtain ⟨s₃, hr₃, h₃⟩ : ∃ s', (dataflowMachine fork).Reaches (UserDriven 0) s₂ s' ∧
      At (.offering x .throwIfNotStarted (if x then [1, 2] else [1]) none) s' ran count := by
    obtain ⟨q, -, hb⟩ := h₂.root
    refine h₂.reaches_move (process_of_block ?_)
    rw [hb]
    cases x <;> rfl
  exact ⟨s₃, (hr₁.trans hr₂).trans hr₃, h₃⟩

/-- Block 0 offers an item to block 1. -/
theorem At.exists_offered {x : Bool} {offer : List (Fin 3)}
    (h : At (.offering x .throwIfNotStarted (1 :: offer) none) s ran count) :
    ∃ s', (dataflowMachine fork).Reaches (UserDriven 0) s s' ∧
      At (offered x 1 offer none (if count = intMax then .threw .semaphoreFull else .returned)) s'
        ran (if count = intMax then intMax else count + 1) := by
  obtain ⟨q₀, hq₀, h₀⟩ := h.root
  obtain ⟨q₁, xs, hq₁, h₁⟩ := h.child
  have hready : (s.block 1).Ready := by
    rw [h₁]
    exact ⟨rfl, rfl, hq₁.toStill⟩
  have hfull : (s.block 1).full ↔ count = intMax := by
    rw [h₁, Block.full, startedBlock, hq₁.count, hq₁.maxCount]
  have hoffer := reaches_offer (N := fork) 0 h.running (by rw [h₀]; rfl) (by decide)
    hready
  simp only [Block.putPhase, hfull] at hoffer
  refine ⟨_, hoffer, h.running, h.returned, ⟨q₀, hq₀, ?_⟩,
    ⟨q₁.put ⟨.block 0, x⟩, xs ++ [⟨.block 0, x⟩], ?_, ?_⟩, h.filtered⟩
  · rw [set_block_self, h₀]
    rfl
  · split_ifs with hc
    · subst hc
      exact hq₁.put_full _
    · exact hq₁.put hc _
  · rw [set_block_of_ne _ _ (by decide), set_block_self, h₁]
    rfl

/-- An item that block 2 does not accept, while the queue of block 1 has room. -/
theorem At.exists_false (h : At .loop s ran count) (hroom : count ≠ intMax) :
    ∃ s' ran', (dataflowMachine fork).Reaches (UserDriven 0) s s' ∧
      At .loop s' ran' (count + 1) := by
  obtain ⟨s₁, k, hr₁, h₁⟩ := h.exists_invoked false
  obtain ⟨s₂, hr₂, h₂⟩ := h₁.exists_asked
  obtain ⟨s₃, hr₃, h₃⟩ := h₂.exists_offered
  rw [if_neg hroom, if_neg hroom] at h₃
  obtain ⟨q, -, hb⟩ := h₃.root
  obtain ⟨s₄, hr₄, h₄⟩ := h₃.reaches_move (r := .loop) (process_of_block (by rw [hb]; rfl))
  exact ⟨s₄, _, ((hr₁.trans hr₂).trans hr₃).trans hr₄, h₄⟩

theorem exists_filled (k : ℕ) (hk : k ≤ intMax) : ∃ s ran,
    (dataflowMachine fork).Reachable (UserDriven 0) s ∧ At .loop s ran k := by
  induction k with
  | zero =>
    obtain ⟨s, hr, h⟩ := exists_started
    exact ⟨s, [], hr, h⟩
  | succ k ih =>
    obtain ⟨s, ran, hr, h⟩ := ih (by omega)
    obtain ⟨s', ran', hr', h'⟩ := h.exists_false (by omega)
    exact ⟨s', ran', hr.trans hr', by exact_mod_cast h'⟩

/-- The queue of block 1 gets full. -/
theorem exists_full : ∃ s ran,
    (dataflowMachine fork).Reachable (UserDriven 0) s ∧ At .loop s ran intMax :=
  exists_filled intMax.toNat (by decide)

/-- An item that both blocks accept, while the queue of block 1 is full. -/
theorem At.exists_true (h : At .loop s ran intMax) :
    ∃ s' k, (dataflowMachine fork).Reaches (UserDriven 0) s s' ∧
      At .loop s' (ran ++ [⟨.user k, true⟩]) intMax := by
  obtain ⟨s₁, k, hr₁, h₁⟩ := h.exists_invoked true
  obtain ⟨s₂, hr₂, h₂⟩ := h₁.exists_asked
  obtain ⟨s₃, hr₃, h₃⟩ := h₂.exists_offered
  rw [if_pos rfl, if_pos rfl] at h₃
  exact ⟨s₃, k, (hr₁.trans hr₂).trans hr₃, h₃⟩

/-- Block 0 is at the loop of its `FinallyBlock`, with `cs` still to complete. -/
structure Closing (cs : List (Fin 3)) (s : Dataflow (Fin 3) Bool Unit Empty)
    (ran : List (QueueItem (Fin 3) Bool)) : Prop where
  running : s.terminated = false
  returned : ∀ k c, s.call k = some c → c.phase = .returned
  finally_ : (s.block 0).stateMutex = some ⟨.user, .finally none none none⟩
  toComplete : (s.block 0).toComplete = cs
  ran : (s.block 0).ran = ran

/-- The user completes block 0. -/
theorem At.exists_closing (h : At .loop s ran count) :
    ∃ s', (dataflowMachine fork).Reaches (UserDriven 0) s s' ∧ Closing [1, 2] s' ran ∧
      ∀ c ≠ 0, s'.block c = s.block c := by
  obtain ⟨q₀, hq₀, h₀⟩ := h.root
  let b₀ : Block (Fin 3) Bool Unit Empty := { startedBlock .user [1, 2] .loop q₀ ran with
    startCallsCount := 0, completedBy := [.user], state := .stopping
    stateMutex := some ⟨.user, .cancel none⟩ }
  have hcomplete : (dataflowMachine fork).step s (.complete 0) = some (s.set 0 b₀) := by
    simp only [dataflowMachine, step, h.running, completeCommon, h₀]
    rfl
  have hguard : UserDriven 0 s (.complete 0) := by
    refine ⟨rfl, by simp [h₀, startedBlock], fun k c hk => ?_⟩
    rw [h.returned k c hk]
    rfl
  obtain ⟨q, st, hlocal⟩ := Block.exists_completed (N := fork) (n := 0) (b := b₀) returns rfl
    hq₀.critical (hq₀.token ()) (.inr hq₀.items) (.inl rfl)
  refine ⟨_, .head hcomplete hguard (reaches_local (n := 0) (by exact h.running) hlocal),
    ⟨h.running, h.returned, ?_, ?_, ?_⟩, fun c hc => ?_⟩
  · rw [set_block_self]
  · rw [set_block_self]
    rfl
  · rw [set_block_self]
    simp only [b₀, startedBlock, hq₀.items, List.append_nil]
  · rw [set_block_of_ne _ _ hc, set_block_of_ne _ _ hc]

/-- The `FinallyBlock` of block 0 completes block `c`. -/
theorem Closing.exists_completed {c : Fin 3} {cs : List (Fin 3)} (h : Closing (c :: cs) s ran)
    (hc : c ≠ 0) {q : AsyncCollection Unit (QueueItem (Fin 3) Bool) Empty}
    {xs : List (QueueItem (Fin 3) Bool)} (hq : q.Stocked count xs)
    (hb : s.block c = startedBlock (.block 0) [] .awaitStart q []) :
    ∃ s', (dataflowMachine fork).Reaches (UserDriven 0) s s' ∧ Closing cs s' ran ∧
      (∀ d ≠ 0, d ≠ c → s'.block d = s.block d) ∧
      (s'.block c).completedTask.state = .runToCompletion ∧ (s'.block c).ran = xs := by
  have hready : (s.block c).Ready := by
    rw [hb]
    exact ⟨rfl, rfl, hq.toStill⟩
  obtain ⟨b, hr, hdone, hran⟩ := exists_completeNext 0 returns h.running h.finally_ h.toComplete
    hc (if_neg hc) hready (by rw [hb]; rfl) (by rw [hb]; exact hq.token ())
    (by rw [hb]; exact ⟨rfl, rfl⟩) (by rw [hb]; rfl)
  refine ⟨_, hr, ⟨h.running, h.returned, ?_, ?_, ?_⟩, fun d hd hdc => ?_, ?_, ?_⟩
  · rw [set_block_self]
    exact h.finally_
  · rw [set_block_self]
  · rw [set_block_self]
    exact h.ran
  · rw [set_block_of_ne _ _ hd, set_block_of_ne _ _ hdc]
  · rw [set_block_of_ne _ _ hc, set_block_self, hdone, hb]
    rfl
  · rw [set_block_of_ne _ _ hc, set_block_self, hran, hb]
    exact hq.items

end Fork

/-! ## Exactly once -/

/-- The function of block `n` was called, for each block connected to it, on the items that
    block produced and `n` accepts, once each and in their order, and on nothing else; that of
    the root on the items of the calls of the user that returned, once each. -/
structure Delivered (N : Network Node Item σ ε) (root : Node) (s : Dataflow Node Item σ ε)
    (n : Node) : Prop where
  parents : ∀ p, n ∈ N.outputNodes p →
    ((s.block n).ran.filter fun x => x.origin = .block p).map QueueItem.item =
      (N.produced p (s.block p).ran).1.filter (N.canAcceptFunc n)
  others : ∀ x ∈ (s.block n).ran, (∃ p, n ∈ N.outputNodes p ∧ x.origin = .block p) ∨
    (n = root ∧ ∃ k c, s.call k = some c ∧ c.phase = .returned ∧ x = ⟨.user k, c.item⟩)
  accepted : n = root → ∀ k c, s.call k = some c → c.phase = .returned →
    (s.block n).ran.filter (fun x => x.origin = .user k) = [⟨.user k, c.item⟩]

/-- In `s`, block `n` has run the item of a call that returned before `s₀` before that of a call
    made after `s₀`. -/
def AcceptanceOrder (s₀ s : Dataflow Node Item σ ε) (n : Node) : Prop :=
  ∀ k c j d, s₀.call k = some c → c.phase = .returned → s₀.call j = none →
    s.call j = some d → d.phase = .returned →
      [⟨.user k, c.item⟩, ⟨.user j, d.item⟩].Sublist (s.block n).ran

section Theorem

open Dataflow

variable {N : Network Node Item σ ε} {root n : Node} {s₀ s : Dataflow Node Item σ ε}

omit [DecidableEq Node] in
/-- A finite network without cycles. -/
theorem Network.acyclic_of_finite [Finite Node] (hnodup : ∀ p, (N.outputNodes p).Nodup)
    (hacyclic : ∀ m, ¬ Relation.TransGen (fun p c => c ∈ N.outputNodes p) m m) : N.Acyclic := by
  refine ⟨hnodup, ?_⟩
  have : Std.Irrefl (Relation.TransGen fun p c => c ∈ N.outputNodes p) := ⟨hacyclic⟩
  exact Subrelation.wf (fun hc => .single hc) (Finite.wellFounded_of_trans_of_irrefl
    (Relation.TransGen fun p c => c ∈ N.outputNodes p))

theorem delivered_of_completed (hN : N.Acyclic) (hok : N.Returns)
    (h : (dataflowMachine N).Reachable (InRoom root) s)
    (hc : (s.block n).completedTask.state = .runToCompletion) : Delivered N root s n := by
  have hcl := closed_of_completed h hc
  have hran := ran_eq_added (reachable_pushBeforeDrain hN hok h) (by rw [hc]; rfl)
  refine ⟨fun p hp => ?_, fun x hx => ?_, ?_⟩
  · have hedge := reachable_deliveryInv hN hok h p n
    have howed : (s.block p).processingTask.owed N n = [] := by
      rcases parents_of_closed hN hok h hcl hp with hbegun | ⟨r, hfin⟩
      · cases hpt : (s.block p).processingTask <;> rw [hpt] at hbegun <;> first | rfl | cases hbegun
      · rw [hfin]
        rfl
    rw [howed, List.append_nil, Network.producedFor, if_pos hp] at hedge
    rw [hran]
    exact hedge
  · rw [hran] at hx
    cases horigin : x.origin with
    | block p => exact .inl ⟨p, mem_outputNodes_of_added hN hok h hx horigin, rfl⟩
    | user k =>
      obtain rfl := root_of_user h hx horigin
      obtain ⟨c, hcall⟩ := returned_of_added hN hok h hcl hx horigin
      exact .inr ⟨rfl, k, c, hcall⟩
  · rintro rfl k c hk hret
    rw [hran]
    have hafter := (reachable_callInv h).after k c hk (by rw [hret]; rfl)
    rwa [(reachable_userInv h).node k c hk] at hafter

/-- The queues only grow. -/
theorem added_reaches {G : Dataflow Node Item σ ε → DataflowLabel Node Item ε → Prop}
    (h : (dataflowMachine N).Reaches G s₀ s) (m : Node) :
    ∃ xs, (s.block m).inputItems.added = (s₀.block m).inputItems.added ++ xs := by
  refine h.preserves (I := fun s => ∃ xs,
    (s.block m).inputItems.added = (s₀.block m).inputItems.added ++ xs) ?_ ⟨[], by simp⟩
  rintro s a s' ⟨xs, hxs⟩ _ hs
  exact ⟨xs ++ s.pushed a m, by rw [added_step hs, hxs, List.append_assoc]⟩

/-- The item of a call that returned before `s₀` was added before that of a call made after
    `s₀`. -/
theorem sublist_added {G : Dataflow Node Item σ ε → DataflowLabel Node Item ε → Prop}
    (h₀ : (dataflowMachine N).Reachable G s₀) (h : (dataflowMachine N).Reaches G s₀ s) {k j : ℕ}
    {c d : AcceptCall Node Item ε} (hk : s₀.call k = some c) (hkret : c.phase = .returned)
    (hj : s₀.call j = none) (hjs : s.call j = some d) (hjret : d.phase = .returned)
    (hnode : c.node = n ∧ d.node = n) :
    [⟨.user k, c.item⟩, ⟨.user j, d.item⟩].Sublist (s.block n).inputItems.added := by
  obtain ⟨xs, hxs⟩ := added_reaches h n
  have hmem : ∀ {t : Dataflow Node Item σ ε} {i : ℕ} {e : AcceptCall Node Item ε},
      (dataflowMachine N).Reachable G t → t.call i = some e → e.phase = .returned →
        e.node = n → ⟨.user i, e.item⟩ ∈ (t.block n).inputItems.added := by
    rintro t i e ht hi hret rfl
    have hafter := (reachable_callInv ht).after i e hi (by rw [hret]; rfl)
    exact (List.mem_filter.mp (hafter ▸ List.mem_singleton_self _)).1
  have hnot : ⟨.user j, d.item⟩ ∉ (s₀.block n).inputItems.added := by
    intro hin
    have hnil := (reachable_callInv h₀).before j n fun e he => by cases hj.symm.trans he
    exact List.filter_eq_nil_iff.mp hnil _ hin (by simp)
  have hlater : ⟨.user j, d.item⟩ ∈ xs := by
    have hin := hmem (h₀.trans h) hjs hjret hnode.2
    rw [hxs] at hin
    exact (List.mem_append.mp hin).resolve_left hnot
  rw [hxs]
  exact (List.singleton_sublist.mpr (hmem h₀ hk hkret hnode.1)).append
    (List.singleton_sublist.mpr hlater)

theorem acceptance_order (hN : N.Acyclic) (hok : N.Returns)
    (h₀ : (dataflowMachine N).Reachable (InRoom root) s₀)
    (h : (dataflowMachine N).Reaches (InRoom root) s₀ s)
    (hc : (s.block root).completedTask.state = .runToCompletion) : AcceptanceOrder s₀ s root := by
  intro k c j d hk hkret hj hjs hjret
  have hs : (dataflowMachine N).Reachable (InRoom root) s := h₀.trans h
  rw [ran_eq_added (reachable_pushBeforeDrain hN hok hs) (by rw [hc]; rfl)]
  exact sublist_added h₀ h hk hkret hj hjs hjret
    ⟨(reachable_userInv h₀).node k c hk, (reachable_userInv hs).node j d hjs⟩

/-- Exactly-once delivery, in every finite network without cycles whose blocks are connected
    once each and whose functions return: in every run in which the user starts and completes
    the root once, and no `Release()` of an `AcceptInputAsync` finds the semaphore of its queue
    full, a block whose `Completion()` is `RunToCompletion` has run its function exactly on what
    it was to run it on, and the root in the order of acceptance. -/
theorem exactly_once_delivery [Finite Node] (hnodup : ∀ p, (N.outputNodes p).Nodup)
    (hacyclic : ∀ m, ¬ Relation.TransGen (fun p c => c ∈ N.outputNodes p) m m)
    (hok : N.Returns) (h₀ : (dataflowMachine N).Reachable (InRoom root) s₀)
    (h : (dataflowMachine N).Reaches (InRoom root) s₀ s)
    (hc : (s.block n).completedTask.state = .runToCompletion) :
    Delivered N root s n ∧ (n = root → AcceptanceOrder s₀ s n) := by
  have hN := Network.acyclic_of_finite hnodup hacyclic
  refine ⟨delivered_of_completed hN hok (h₀.trans h) hc, ?_⟩
  rintro rfl
  exact acceptance_order hN hok h₀ h hc

end Theorem

/-- Block 1 of the fork, after an item that block 2 does not accept. -/
theorem exactly_once_delivery_fork : ∃ s, (dataflowMachine fork).Reachable (InRoom 0) s ∧
    (s.block 1).ran = [⟨.block 0, false⟩] ∧ Delivered fork 0 s 1 := by
  obtain ⟨s, hr, hc, hran⟩ := Fork.exists_passed
  exact ⟨s, hr, hran,
    (exactly_once_delivery Fork.nodup Fork.acyclic Fork.returns .init hr hc).1⟩

/-- What the bound on the queues is for: with `INT_MAX` items in the queue of block 1, the next
    item is not offered to block 2, which accepts it and ends in `RunToCompletion`. -/
theorem not_exactly_once_delivery :
    (∀ p, (fork.outputNodes p).Nodup) ∧
      (∀ m, ¬ Relation.TransGen (fun p c => c ∈ fork.outputNodes p) m m) ∧ fork.Returns ∧
      ∃ s, (dataflowMachine fork).Reachable (UserDriven 0) s ∧
        (∀ k c, s.call k = some c → c.phase = .returned) ∧
        (s.block 2).completedTask.state = .runToCompletion ∧ ¬ Delivered fork 0 s 2 := by
  refine ⟨Fork.nodup, Fork.acyclic, Fork.returns, ?_⟩
  obtain ⟨s₁, ran, hr₁, h₁⟩ := Fork.exists_full
  obtain ⟨s₂, k, hr₂, h₂⟩ := h₁.exists_true
  obtain ⟨s₃, hr₃, h₃, hsame⟩ := h₂.exists_closing
  obtain ⟨q₁, xs, hq₁, hb₁⟩ := h₂.child
  obtain ⟨s₄, hr₄, h₄, hsame₄, -⟩ := h₃.exists_completed (by decide) hq₁
    (by rw [hsame 1 (by decide), hb₁])
  obtain ⟨s₅, hr₅, h₅, -, hdone, hran⟩ := h₄.exists_completed (by decide) Fork.stocked_empty
    (by rw [hsame₄ 2 (by decide) (by decide), hsame 2 (by decide), h₂.filtered])
  refine ⟨s₅, (((hr₁.trans hr₂).trans hr₃).trans hr₄).trans hr₅, h₅.returned, hdone, fun hd => ?_⟩
  have hparent := hd.parents 0 (by decide)
  rw [hran, h₅.ran, Fork.produced] at hparent
  have htrue : true ∈ ((ran ++ [(⟨.user k, true⟩ : QueueItem (Fin 3) Bool)]).map
      QueueItem.item).filter (fork.canAcceptFunc 2) := by simp [fork]
  rw [← hparent] at htrue
  exact List.not_mem_nil htrue

end AsyncCpp.DataFlow
