import AsyncCpp.DataFlow.DataFlowBlock

/-!
# Invariants of a single block

A step of the network changes a block by one of the operations of the block itself, by
the reply of a nested call, or by a step of somebody's `AcceptInputAsync`. A property of
single blocks that all of these keep holds of every block in every reachable state.

Results:
* `reachable_closed`: the invariant rule for properties of single blocks, under a
  condition on the calls of `AcceptInputAsync`.
* `reachable_taskInv`: `Completion()` is completed only after the processing task ended
  without an exception.
-/

namespace AsyncCpp.DataFlow

open Interleaving Tasks AsyncPrimitives

variable {Node Item σ ε : Type*}

/-- The calls of `Start`, `Complete` and `SetFaulted` keep `P`. -/
structure ClosedCalls (P : Node → Block Node Item σ ε → Prop) : Prop where
  start : ∀ {n b caller b' r}, P n b → b.start caller = some (b', r) → P n b'
  completeCommon : ∀ {n b caller e b' r}, P n b → b.completeCommon caller e = some (b', r) → P n b'
  advance : ∀ {n b b' r}, P n b → b.advance = some (b', r) → P n b'
  resumed : ∀ {n b}, P n b → P n { b with stateMutex := b.stateMutex.map Activation.resumed }
  throwing : ∀ {n b caller calling e}, P n b → b.stateMutex = some ⟨caller, .starting calling⟩ →
    P n { b with stateMutex := some ⟨caller, .throwing e⟩ }
  faultThread : ∀ {n b}, P n b → P n { b with faultThread := none }

/-- Everything that happens to a block keeps `P`. `A` is what is known of a block whose
    `AcceptInputAsync` goes on. -/
structure Closed (N : Network Node Item σ ε) (A : AcceptPhase ε → Block Node Item σ ε → Prop)
    (P : Node → Block Node Item σ ε → Prop) : Prop extends ClosedCalls P where
  process : ∀ {n b b'}, P n b → b.process N n = some b' → P n b'
  asked : ∀ {n b y c ask offer rest offer'}, P n b →
    b.processingTask = .asking y (c :: ask) offer rest →
      offer' = offer ∨ offer' = offer ++ [c] →
        P n { b with processingTask := .asking y ask offer' rest }
  offered : ∀ {n b y phase c offer rest phase'}, P n b →
    b.processingTask = .offering y phase (c :: offer) rest →
      P n { b with processingTask := offered y c offer rest phase' }
  accept : ∀ {n b x phase b' phase'}, P n b → A phase b →
    b.acceptInputAsync x phase = some (b', phase') → P n b'

namespace Block

variable {N : Network Node Item σ ε} {n : Node} {b b' : Block Node Item σ ε}

/-- What a step of `AcceptInputAsync` does, and the phase it leads to. -/
inductive AcceptStep (b : Block Node Item σ ε) (x : QueueItem Node Item) :
    AcceptPhase ε → Block Node Item σ ε → AcceptPhase ε → Prop
  | started (hst : b.state = .started) : AcceptStep b x .throwIfNotStarted b .push
  | notStarted (hst : b.state ≠ .started) :
    AcceptStep b x .throwIfNotStarted b (.threw notRunning)
  | push {q : AsyncCollection Unit (QueueItem Node Item) ε}
    (hq : b.inputItems.step (.push x) = some q) :
    AcceptStep b x .push { b with inputItems := q } .release
  | full {q : AsyncCollection Unit (QueueItem Node Item) ε}
    (hq : b.inputItems.step .release = some q) (hfull : b.full) :
    AcceptStep b x .release { b with inputItems := q } (.threw .semaphoreFull)
  | release {q : AsyncCollection Unit (QueueItem Node Item) ε}
    (hq : b.inputItems.step .release = some q) (hfull : ¬ b.full) :
    AcceptStep b x .release { b with inputItems := q } (.afterRelease q)
  | releasing {q : AsyncCollection Unit (QueueItem Node Item) ε}
    (hq : b.inputItems.step .advance = some q) :
    AcceptStep b x .releasing { b with inputItems := q } (.afterRelease q)

theorem acceptInputAsync_cases {x : QueueItem Node Item} {phase phase' : AcceptPhase ε}
    (h : b.acceptInputAsync x phase = some (b', phase')) : AcceptStep b x phase b' phase' := by
  cases phase with
  | throwIfNotStarted =>
    simp only [acceptInputAsync] at h
    split_ifs at h with hm hst <;> cases h
    · exact .started hst
    · exact .notStarted hst
  | push =>
    simp only [acceptInputAsync, Option.map_eq_some_iff] at h
    obtain ⟨q, hq, h⟩ := h
    cases h
    exact .push hq
  | release =>
    simp only [acceptInputAsync, Option.map_eq_some_iff] at h
    obtain ⟨q, hq, h⟩ := h
    split_ifs at h with hfull <;> cases h
    · exact .full hq hfull
    · exact .release hq hfull
  | releasing =>
    simp only [acceptInputAsync, Option.map_eq_some_iff] at h
    obtain ⟨q, hq, h⟩ := h
    cases h
    exact .releasing hq
  | returned | threw e => cases h

/-! ## What an operation leaves unchanged -/

/-- A call of `AcceptInputAsync` changes the input queue only. -/
theorem acceptInputAsync_eq {x : QueueItem Node Item} {phase phase' : AcceptPhase ε}
    (h : b.acceptInputAsync x phase = some (b', phase')) :
    b' = { b with inputItems := b'.inputItems } := by
  cases acceptInputAsync_cases h <;> rfl

theorem start_eq {caller : Caller Node} {r : Reply Node ε} (h : b.start caller = some (b', r)) :
    b' = { b with
      startCallsCount := b'.startCallsCount, startedBy := b'.startedBy, toStart := b'.toStart
      processingTask := b'.processingTask, stateMutex := b'.stateMutex } ∧
    (b'.processingTask = b.processingTask ∨
      b.processingTask = .initial ∧ b'.processingTask = .awaitStart) := by
  unfold start at h
  split at h
  · cases h
  · simp only at h
    split at h
    · cases h
      exact ⟨rfl, .inl rfl⟩
    · rename_i hp
      cases h
      exact ⟨rfl, .inr ⟨hp, rfl⟩⟩
    · cases h
      exact ⟨rfl, .inl rfl⟩
    · cases h
      exact ⟨rfl, .inl rfl⟩

theorem completeCommon_eq {caller : Caller Node} {e : Option (Exn ε)} {r : Reply Node ε}
    (h : b.completeCommon caller e = some (b', r)) :
    b' = { b with
      startCallsCount := b'.startCallsCount, completedBy := b'.completedBy, state := b'.state
      stateMutex := b'.stateMutex } := by
  unfold completeCommon at h
  split at h
  · cases h
  · simp only at h
    split_ifs at h
    · cases h
      rfl
    · split at h
      all_goals
        cases h
        rfl

/-- What a step of the thread that holds `_stateMutex` can be. -/
inductive AdvanceStep (b : Block Node Item σ ε) : Block Node Item σ ε → NextCall Node ε → Prop
  | opened {caller : Caller Node} (hm : b.stateMutex = some ⟨caller, .starting none⟩)
    (ht : b.toStart = []) :
    AdvanceStep b
      { b with
        state := .started, startTask := b.startTask.exec (.setResult () true), stateMutex := none }
      (.reply (.returned caller))
  | startNext {caller : Caller Node} {c : Node} {cs : List Node}
    (hm : b.stateMutex = some ⟨caller, .starting none⟩) (ht : b.toStart = c :: cs) :
    AdvanceStep b { b with toStart := cs, stateMutex := some ⟨caller, .starting (some c)⟩ } (.start c)
  | cancel {caller : Caller Node} {e : Option (Exn ε)}
    {q : AsyncCollection Unit (QueueItem Node Item) ε}
    (hm : b.stateMutex = some ⟨caller, .cancel e⟩) (hq : b.inputItems.step (.cancel ()) = some q) :
    AdvanceStep b { b with inputItems := q, stateMutex := some ⟨caller, .canceling e⟩ }
      (.reply .inside)
  | canceled {caller : Caller Node} {e : Option (Exn ε)}
    (hm : b.stateMutex = some ⟨caller, .canceling e⟩) :
    AdvanceStep b { b with stateMutex := some ⟨caller, .wait e⟩ } (.reply .inside)
  | runCancel {caller : Caller Node} {e : Option (Exn ε)}
    {q : AsyncCollection Unit (QueueItem Node Item) ε}
    (hm : b.stateMutex = some ⟨caller, .canceling e⟩)
    (hq : b.inputItems.step (.runCancel ()) = some q) :
    AdvanceStep b { b with inputItems := q } (.reply .inside)
  | waited {caller : Caller Node} {e : Option (Exn ε)} {r : Except (Exn ε) Unit}
    (hm : b.stateMutex = some ⟨caller, .wait e⟩) (hr : b.processingTask.outcome = some r) :
    AdvanceStep b (b.waited caller e r) (.reply .inside)
  | finished {caller : Caller Node} {e : Option (Exn ε)}
    (hm : b.stateMutex = some ⟨caller, .finally e none none⟩) (ht : b.toComplete = []) :
    AdvanceStep b { b with stateMutex := none } (.reply (.returned caller))
  | rethrown {caller : Caller Node} {e : Option (Exn ε)} {ex : Exn ε}
    (hm : b.stateMutex = some ⟨caller, .finally e none (some ex)⟩) (ht : b.toComplete = []) :
    AdvanceStep b { b with stateMutex := none } (.reply (.threw ex caller))
  | completeNext {caller : Caller Node} {e pending : Option (Exn ε)} {c : Node} {cs : List Node}
    (hm : b.stateMutex = some ⟨caller, .finally e none pending⟩) (ht : b.toComplete = c :: cs) :
    AdvanceStep b
      { b with toComplete := cs, stateMutex := some ⟨caller, .finally e (some c) pending⟩ }
      (.complete c e)
  | throwing {caller : Caller Node} {ex : Exn ε} (hm : b.stateMutex = some ⟨caller, .throwing ex⟩) :
    AdvanceStep b { b with stateMutex := none } (.reply (.threw ex caller))

theorem advance_cases {r : NextCall Node ε} (h : b.advance = some (b', r)) :
    AdvanceStep b b' r := by
  unfold advance at h
  split at h
  · cases h
  · split at h
    all_goals cases h
    · exact .opened ‹_› ‹_›
    · exact .startNext ‹_› ‹_›
  · simp only [Option.map_eq_some_iff] at h
    obtain ⟨q, hq, h⟩ := h
    cases h
    exact .cancel ‹_› hq
  · split at h
    · cases h
      exact .canceled ‹_›
    · simp only [Option.map_eq_some_iff] at h
      obtain ⟨q, hq, h⟩ := h
      cases h
      exact .runCancel ‹_› hq
  · simp only [Option.map_eq_some_iff] at h
    obtain ⟨r, hr, h⟩ := h
    cases h
    exact .waited ‹_› hr
  · rename_i caller e pending hm
    split at h
    all_goals cases h
    · cases pending with
      | none => exact .finished hm ‹_›
      | some ex => exact .rethrown hm ‹_›
    · exact .completeNext hm ‹_›
  · cases h
    exact .throwing ‹_›
  · cases h
  · cases h

/-- The thread that holds `_stateMutex` touches the input queue only to cancel its token. -/
theorem advance_eq {r : NextCall Node ε} (h : b.advance = some (b', r)) :
    b' = { b with
      toStart := b'.toStart, toComplete := b'.toComplete, state := b'.state
      startTask := b'.startTask, completedTask := b'.completedTask, stateMutex := b'.stateMutex
      inputItems := b'.inputItems } ∧
    (b'.inputItems = b.inputItems ∨
      ∃ a, (a = .cancel () ∨ a = .runCancel ()) ∧ b.inputItems.step a = some b'.inputItems) := by
  cases advance_cases h with
  | cancel hm hq => exact ⟨rfl, .inr ⟨_, .inl rfl, hq⟩⟩
  | runCancel hm hq => exact ⟨rfl, .inr ⟨_, .inr rfl, hq⟩⟩
  | @waited caller e r => cases r <;> exact ⟨rfl, .inl rfl⟩
  | _ => exact ⟨rfl, .inl rfl⟩

/-- What a step of the processing task that touches no other block can be. -/
inductive ProcessStep (N : Network Node Item σ ε) (n : Node) (b : Block Node Item σ ε) :
    Block Node Item σ ε → Prop
  | started (hp : b.processingTask = .awaitStart) (hs : b.startTask.state.isCompleted) :
    ProcessStep N n b { b with processingTask := .loop }
  | canceled (hp : b.processingTask = .loop)
    (hc : (b.inputItems.asyncSemaphore.token ()).isCanceled = true) :
    ProcessStep N n b { b with processingTask := .drain }
  | take {q : AsyncCollection Unit (QueueItem Node Item) ε} (hp : b.processingTask = .loop)
    (hq : b.inputItems.step (.takeAsync (some ())) = some q) :
    ProcessStep N n b
      { b with inputItems := q, processingTask := .taking b.inputItems.asyncSemaphore.issued }
  | waiting {i : ℕ} {q : AsyncCollection Unit (QueueItem Node Item) ε}
    (hp : b.processingTask = .taking i) (hq : b.inputItems.step .advance = some q)
    (hi : i ∈ b.inputItems.asyncSemaphore.critical.calling) :
    ProcessStep N n b { b with inputItems := q }
  | resume {i : ℕ} {q : AsyncCollection Unit (QueueItem Node Item) ε}
    (hp : b.processingTask = .taking i) (ho : b.inputItems.outcome i = none)
    (hq : b.inputItems.step (.resume i) = some q) :
    ProcessStep N n b { b with inputItems := q }
  | took {i : ℕ} {x : QueueItem Node Item} (hp : b.processingTask = .taking i)
    (ho : b.inputItems.outcome i = some (.ok x)) :
    ProcessStep N n b { b with processingTask := .invoke x none }
  | retry {i : ℕ} (hp : b.processingTask = .taking i)
    (ho : b.inputItems.outcome i = some (.error .operationCanceled)) :
    ProcessStep N n b { b with processingTask := .loop }
  | takeFailed {i : ℕ} {e : Exn ε} (hp : b.processingTask = .taking i)
    (ho : b.inputItems.outcome i = some (.error e)) (he : e ≠ .operationCanceled) :
    ProcessStep N n b { b with processingTask := .failed e }
  | invoked {x : QueueItem Node Item} {rest : Option (List (QueueItem Node Item))} {y : Item} {st : σ}
    (hp : b.processingTask = .invoke x rest)
    (hf : N.transformFunc n b.nodeState x.item = (.ok y, st)) :
    ProcessStep N n b
      { b with
        ran := b.ran ++ [x], nodeState := st, processingTask := .asking y (N.outputNodes n) [] rest }
  | threw {x : QueueItem Node Item} {rest : Option (List (QueueItem Node Item))} {e : Exn ε} {st : σ}
    (hp : b.processingTask = .invoke x rest)
    (hf : N.transformFunc n b.nodeState x.item = (.error e, st)) :
    ProcessStep N n b
      { b with
        ran := b.ran ++ [x], nodeState := st, thrown := some e, processingTask := .failed e }
  | asked {y : Item} {offer : List Node} {rest : Option (List (QueueItem Node Item))}
    (hp : b.processingTask = .asking y [] offer rest) :
    ProcessStep N n b { b with processingTask := .offering y .throwIfNotStarted offer rest }
  | propagated {y : Item} {phase : AcceptPhase ε} {rest : Option (List (QueueItem Node Item))}
    (hp : b.processingTask = .offering y phase [] rest) :
    ProcessStep N n b { b with processingTask := .next rest }
  | drained {q : AsyncCollection Unit (QueueItem Node Item) ε} (hp : b.processingTask = .drain)
    (hq : b.inputItems.step .tryTakeAll = some q) :
    ProcessStep N n b
      { b with inputItems := q, processingTask := .next (some b.inputItems.innerCollection) }
  | reported {e : Exn ε} (hp : b.processingTask = .failed e) :
    ProcessStep N n b
      { b with
        faultThread := if e.isStdException then some e else b.faultThread
        processingTask := .finished (.error e) }

theorem process_cases (h : b.process N n = some b') : ProcessStep N n b b' := by
  unfold process at h
  split at h
  · rename_i hp
    split_ifs at h with hst
    cases h
    exact .started hp hst
  · rename_i hp
    split_ifs at h with hc
    · cases h
      exact .canceled hp hc
    · simp only [Option.map_eq_some_iff] at h
      obtain ⟨q, hq, rfl⟩ := h
      exact .take hp hq
  · rename_i i hp
    split_ifs at h with hi
    · simp only [Option.map_eq_some_iff] at h
      obtain ⟨q, hq, rfl⟩ := h
      exact .waiting hp hq hi
    · split at h
      · simp only [Option.map_eq_some_iff] at h
        obtain ⟨q, hq, rfl⟩ := h
        exact .resume hp ‹_› hq
      · cases h
        exact .took hp ‹_›
      · rename_i e ho
        cases h
        split_ifs with he
        · rw [Exn.isOperationCanceled_iff] at he
          subst he
          exact .retry hp ho
        · exact .takeFailed hp ho fun heq => he ((Exn.isOperationCanceled_iff e).mpr heq)
  · rename_i x rest hp
    cases h
    unfold invoke
    split
    · exact .invoked hp ‹_›
    · exact .threw hp ‹_›
  · cases h
    exact .asked ‹_›
  · cases h
    exact .propagated ‹_›
  · rename_i hp
    simp only [Option.map_eq_some_iff] at h
    obtain ⟨q, hq, rfl⟩ := h
    exact .drained hp hq
  · cases h
    exact .reported ‹_›
  all_goals cases h

end Block

/-- The step moves items, it is not one of `Start`, `Complete` or `SetFaulted`. -/
def DataflowLabel.movesItems : DataflowLabel Node Item ε → Bool
  | .process _ | .runCall _ | .acceptInputAsync _ _ => true
  | _ => false

namespace Dataflow

variable [DecidableEq Node] {N : Network Node Item σ ε} {s s' : Dataflow Node Item σ ε}
  {A : AcceptPhase ε → Block Node Item σ ε → Prop} {P : Node → Block Node Item σ ε → Prop}

@[simp] theorem set_block_self (s : Dataflow Node Item σ ε) (n : Node) (b : Block Node Item σ ε) :
    (s.set n b).block n = b :=
  Function.update_self ..

theorem set_block_of_ne (s : Dataflow Node Item σ ε) {n m : Node} (b : Block Node Item σ ε)
    (h : m ≠ n) : (s.set n b).block m = s.block m :=
  Function.update_of_ne h ..

/-- The call of `AcceptInputAsync` the step goes on with: the block, the item, and where the
    call is. -/
def accepting (s : Dataflow Node Item σ ε) :
    DataflowLabel Node Item ε → Option (Node × QueueItem Node Item × AcceptPhase ε)
  | .runCall k => (s.call k).map fun c => (c.node, ⟨.user k, c.item⟩, c.phase)
  | .process n =>
    match (s.block n).processingTask with
    | .offering y phase (c :: _) _ => some (c, ⟨.block n, y⟩, phase)
    | _ => none
  | _ => none

omit [DecidableEq Node] in
theorem accepting_runCall {k : ℕ} {c : AcceptCall Node Item ε} (h : s.call k = some c) :
    s.accepting (.runCall k) = some (c.node, ⟨.user k, c.item⟩, c.phase) := by
  simp only [accepting, h, Option.map_some]

omit [DecidableEq Node] in
theorem accepting_process {n c : Node} {y : Item} {phase : AcceptPhase ε} {offer : List Node}
    {rest : Option (List (QueueItem Node Item))}
    (h : (s.block n).processingTask = .offering y phase (c :: offer) rest) :
    s.accepting (.process n) = some (c, ⟨.block n, y⟩, phase) := by
  simp only [accepting, h]

theorem forall_set (h : ∀ m, P m (s.block m)) {n : Node} {b : Block Node Item σ ε} (hb : P n b) :
    ∀ m, P m ((s.set n b).block m) := by
  intro m
  by_cases hm : m = n
  · subst hm
    rwa [set_block_self]
  · rw [set_block_of_ne _ _ hm]
    exact h m

/-- What a step of a call of the user is in the network. -/
theorem runCall_cases {k : ℕ} (hs : s.runCall k = some s') :
    ∃ c b phase, s.call k = some c ∧
      (s.block c.node).acceptInputAsync ⟨.user k, c.item⟩ c.phase = some (b, phase) ∧
      s' = { s.set c.node b with
        call := Function.update s.call k (some { c with phase := phase }) } := by
  unfold runCall at hs
  split at hs
  case h_1 => cases hs
  case h_2 c hc =>
    obtain ⟨⟨b, phase⟩, hb, rfl⟩ := Option.map_eq_some_iff.mp hs
    exact ⟨c, b, phase, hc, hb, rfl⟩

/-- What a step of the processing task of `n` is in the network. -/
theorem process_cases {n : Node} (hs : s.process N n = some s') :
    (∃ y c ask offer rest, (s.block n).processingTask = .asking y (c :: ask) offer rest ∧
      (s.block c).stateMutex = none ∧
      s' = s.set n { s.block n with
        processingTask := .asking y ask (if s.canAcceptInput N c y then offer ++ [c] else offer) rest }) ∨
    (∃ y phase c offer rest bc phase',
      (s.block n).processingTask = .offering y phase (c :: offer) rest ∧
      (s.block c).acceptInputAsync ⟨.block n, y⟩ phase = some (bc, phase') ∧
      s' = (s.set c bc).set n { (s.set c bc).block n with
        processingTask := offered y c offer rest phase' }) ∨
    ∃ b, (s.block n).process N n = some b ∧ s' = s.set n b := by
  unfold process at hs
  split at hs
  · rename_i y c ask offer rest hpc
    by_cases hfree : (s.block c).stateMutex.isNone
    · rw [if_pos hfree] at hs
      cases hs
      exact .inl ⟨y, c, ask, offer, rest, hpc, Option.isNone_iff_eq_none.mp hfree, rfl⟩
    · rw [if_neg hfree] at hs
      cases hs
  · rename_i y phase c offer rest hpc
    simp only [Option.map_eq_some_iff] at hs
    obtain ⟨⟨bc, phase'⟩, hacc, rfl⟩ := hs
    exact .inr (.inl ⟨y, phase, c, offer, rest, bc, phase', hpc, hacc, rfl⟩)
  · simp only [Option.map_eq_some_iff] at hs
    obtain ⟨b, hb, rfl⟩ := hs
    exact .inr (.inr ⟨b, hb, rfl⟩)

/-! ### What a step leaves unchanged -/

section Unchanged

variable {α : Type*} {f : Block Node Item σ ε → α}

theorem set_congr {n : Node} {b : Block Node Item σ ε} (hb : f b = f (s.block n)) (m : Node) :
    f ((s.set n b).block m) = f (s.block m) :=
  forall_set (P := fun m b => f b = f (s.block m)) (fun _ => rfl) hb m

/-- A reply changes `stateMutex` only. -/
theorem reply_congr (hf : ∀ b m, f { b with stateMutex := m } = f b) (s : Dataflow Node Item σ ε)
    (r : Reply Node ε) (m : Node) : f ((s.reply r).block m) = f (s.block m) := by
  cases r with
  | inside => rfl
  | returned caller =>
    cases caller with
    | user | faultThread => rfl
    | block p => exact set_congr (hf _ _) m
  | threw e caller =>
    cases caller with
    | user | faultThread => rfl
    | block p =>
      simp only [reply]
      split
      · exact set_congr (hf _ _) m
      · rfl

theorem step_congr (hproc : ∀ n b b', b.process N n = some b' → f b' = f b)
    (htask : ∀ b p, f { b with processingTask := p } = f b)
    (hqueue : ∀ b q, f { b with inputItems := q } = f b) {a : DataflowLabel Node Item ε}
    (hs : s.step N a = some s')
    (ha : a.movesItems) (m : Node) : f (s'.block m) = f (s.block m) := by
  have hacc : ∀ {c x phase b phase'}, (s.block c).acceptInputAsync x phase = some (b, phase') →
      f b = f (s.block c) := by
    intro c x phase b phase' hb
    rw [Block.acceptInputAsync_eq hb]
    exact hqueue _ _
  unfold step at hs
  split_ifs at hs
  cases a with
  | process n =>
    rcases process_cases hs with ⟨y, c, ask, offer, rest, -, -, rfl⟩ |
      ⟨y, phase, c, offer, rest, bc, phase', -, hb, rfl⟩ | ⟨b, hb, rfl⟩
    · exact set_congr (htask _ _) m
    · rw [set_congr (htask _ _) m]
      exact set_congr (hacc hb) m
    · exact set_congr (hproc _ _ _ hb) m
  | runCall k =>
    obtain ⟨c, b, phase, -, hb, rfl⟩ := runCall_cases hs
    exact set_congr (hacc hb) m
  | acceptInputAsync n item =>
    cases hs
    rfl
  | start n | complete n | setFaulted n e | advance n | runFaultThread n => cases ha

end Unchanged

end Dataflow

namespace ClosedCalls

open Dataflow

variable [DecidableEq Node] {N : Network Node Item σ ε} {s s' : Dataflow Node Item σ ε}
  {P : Node → Block Node Item σ ε → Prop}

theorem reply (hP : ClosedCalls P) (h : ∀ m, P m (s.block m)) (r : Reply Node ε) :
    ∀ m, P m ((s.reply r).block m) := by
  cases r with
  | inside => exact h
  | returned caller =>
    cases caller with
    | user | faultThread => exact h
    | block p => exact forall_set h (hP.resumed (h p))
  | threw e caller =>
    cases caller with
    | user | faultThread => exact h
    | block p =>
      simp only [Dataflow.reply]
      split
      · exact forall_set h (hP.throwing (h p) ‹_›)
      · exact h

theorem start_step (hP : ClosedCalls P) (h : ∀ m, P m (s.block m)) {n : Node}
    {caller : Caller Node} (hs : s.start n caller = some s') : ∀ m, P m (s'.block m) := by
  simp only [Dataflow.start, Option.map_eq_some_iff] at hs
  obtain ⟨⟨b, r⟩, hb, rfl⟩ := hs
  exact hP.reply (forall_set h (hP.start (h n) hb)) r

theorem completeCommon_step (hP : ClosedCalls P) (h : ∀ m, P m (s.block m)) {n : Node}
    {caller : Caller Node} {e : Option (Exn ε)} (hs : s.completeCommon n caller e = some s') :
    ∀ m, P m (s'.block m) := by
  simp only [Dataflow.completeCommon, Option.map_eq_some_iff] at hs
  obtain ⟨⟨b, r⟩, hb, rfl⟩ := hs
  exact hP.reply (forall_set h (hP.completeCommon (h n) hb)) r

theorem advance_step (hP : ClosedCalls P) (h : ∀ m, P m (s.block m)) {n : Node}
    (hs : s.advance n = some s') : ∀ m, P m (s'.block m) := by
  unfold Dataflow.advance at hs
  split at hs
  · cases hs
  · cases hs
    exact hP.reply (forall_set h (hP.advance (h n) ‹_›)) _
  · exact hP.start_step (forall_set h (hP.advance (h n) ‹_›)) hs
  · exact hP.completeCommon_step (forall_set h (hP.advance (h n) ‹_›)) hs

/-- A step that is not one of a processing task. -/
theorem step (hP : ClosedCalls P) (h : ∀ m, P m (s.block m)) {a : DataflowLabel Node Item ε}
    (hne : ∀ n, a ≠ .process n)
    (hacc : ∀ c x phase b' phase', s.accepting a = some (c, x, phase) →
      (s.block c).acceptInputAsync x phase = some (b', phase') → P c b')
    (hs : s.step N a = some s') : ∀ m, P m (s'.block m) := by
  unfold Dataflow.step at hs
  split_ifs at hs
  cases a with
  | start n => exact hP.start_step h hs
  | complete n | setFaulted n e => exact hP.completeCommon_step h hs
  | acceptInputAsync n item =>
    cases hs
    exact h
  | runCall k =>
    obtain ⟨c, b, phase, hc, hb, rfl⟩ := runCall_cases hs
    exact forall_set h (hacc _ _ _ _ _ (accepting_runCall hc) hb)
  | advance n => exact hP.advance_step h hs
  | process n => exact absurd rfl (hne n)
  | runFaultThread n =>
    simp only at hs
    split at hs
    · cases hs
    · exact hP.completeCommon_step (forall_set h (hP.faultThread (h n))) hs

/-- A step that is not one of the processing task of `n` changes `n` by a call. -/
theorem step_of_ne (hP : ClosedCalls P) (h : ∀ m, P m (s.block m)) {n : Node}
    {a : DataflowLabel Node Item ε} (hne : a ≠ .process n)
    (hacc : ∀ c x phase b' phase', s.accepting a = some (c, x, phase) →
      (s.block c).acceptInputAsync x phase = some (b', phase') → P c b')
    (hs : s.step N a = some s') : P n (s'.block n) := by
  by_cases hproc : ∃ m, a = .process m
  · obtain ⟨m, rfl⟩ := hproc
    have hnm : n ≠ m := by
      rintro rfl
      exact hne rfl
    unfold Dataflow.step at hs
    split_ifs at hs
    rcases process_cases hs with ⟨y, c, ask, offer, rest, -, -, rfl⟩ |
      ⟨y, phase, c, offer, rest, bc, phase', hpc, hb, rfl⟩ | ⟨b, -, rfl⟩
    · rw [set_block_of_ne _ _ hnm]
      exact h n
    · rw [set_block_of_ne _ _ hnm]
      exact forall_set h (hacc _ _ _ _ _ (accepting_process hpc) hb) n
    · rw [set_block_of_ne _ _ hnm]
      exact h n
  · exact hP.step h (fun m hm => hproc ⟨m, hm⟩) hacc hs n

end ClosedCalls

namespace Closed

open Dataflow

variable [DecidableEq Node] {N : Network Node Item σ ε} {s s' : Dataflow Node Item σ ε}
  {A : AcceptPhase ε → Block Node Item σ ε → Prop} {P : Node → Block Node Item σ ε → Prop}

theorem process_step (hP : Closed N A P) (h : ∀ m, P m (s.block m)) {n : Node}
    (hA : ∀ c x phase, s.accepting (.process n) = some (c, x, phase) → A phase (s.block c))
    (hs : s.process N n = some s') : ∀ m, P m (s'.block m) := by
  rcases process_cases hs with ⟨y, c, ask, offer, rest, hpc, -, rfl⟩ |
    ⟨y, phase, c, offer, rest, bc, phase', hpc, hacc, rfl⟩ | ⟨b, hb, rfl⟩
  · refine forall_set h (hP.asked (h n) hpc ?_)
    split_ifs
    · exact .inr rfl
    · exact .inl rfl
  · have hc := forall_set h (hP.accept (h c) (hA c _ _ (accepting_process hpc)) hacc)
    -- the block may be its own next block
    have hpc' : ((s.set c bc).block n).processingTask = .offering y phase (c :: offer) rest := by
      by_cases hn : n = c
      · subst hn
        rw [set_block_self, Block.acceptInputAsync_eq hacc]
        exact hpc
      · rw [set_block_of_ne _ _ hn]
        exact hpc
    exact forall_set hc (hP.offered (hc n) hpc')
  · exact forall_set h (hP.process (h n) hb)

/-- A step of the network keeps a closed property of all blocks. -/
theorem step (hP : Closed N A P) (h : ∀ m, P m (s.block m)) {a : DataflowLabel Node Item ε}
    (hA : ∀ c x phase, s.accepting a = some (c, x, phase) → A phase (s.block c))
    (hs : s.step N a = some s') : ∀ m, P m (s'.block m) := by
  by_cases hproc : ∃ n, a = .process n
  · obtain ⟨n, rfl⟩ := hproc
    unfold Dataflow.step at hs
    split_ifs at hs
    exact hP.process_step h hA hs
  · exact hP.toClosedCalls.step h (fun n hn => hproc ⟨n, hn⟩)
      (fun c x phase b' phase' hacc hb => hP.accept (h c) (hA c x phase hacc) hb) hs

end Closed

/-- The invariant rule for properties of single blocks. -/
theorem reachable_closed [DecidableEq Node] {N : Network Node Item σ ε}
    {s : Dataflow Node Item σ ε} {A : AcceptPhase ε → Block Node Item σ ε → Prop}
    {P : Node → Block Node Item σ ε → Prop}
    {G : Dataflow Node Item σ ε → DataflowLabel Node Item ε → Prop} (hP : Closed N A P)
    (h0 : ∀ n, P n ((dataflowMachine N).init.block n))
    (hG : ∀ s a, G s a → ∀ c x phase, s.accepting a = some (c, x, phase) → A phase (s.block c))
    (h : (dataflowMachine N).Reachable G s) (n : Node) : P n (s.block n) :=
  h.invariant (I := fun s => ∀ n, P n (s.block n)) h0
    (fun s a _ hi hg hs => hP.step hi (hG s a hg) hs) n

/-! ## The processing task and `Completion()` -/

structure TaskInv (b : Block Node Item σ ε) : Prop where
  initial : b.processingTask = .initial → b.state = .created ∧ b.stateMutex = none
  completed : b.completedTask ≠ {} → b.processingTask = .finished (.ok ())
  thrown : ∀ e, b.thrown = some e →
    b.processingTask = .failed e ∨ b.processingTask = .finished (.error e)

namespace TaskInv

variable {N : Network Node Item σ ε} {n : Node} {b b' : Block Node Item σ ε}

theorem congr (h : TaskInv b) (h1 : b'.processingTask = b.processingTask)
    (h2 : b'.completedTask = b.completedTask) (h3 : b'.thrown = b.thrown)
    (h4 : b'.processingTask = .initial → b'.state = .created ∧ b'.stateMutex = none) :
    TaskInv b' :=
  ⟨h4, by rw [h1, h2]; exact h.completed, by rw [h1, h3]; exact h.thrown⟩

theorem start (h : TaskInv b) {caller : Caller Node} {r : Reply Node ε}
    (hs : b.start caller = some (b', r)) : TaskInv b' := by
  unfold Block.start at hs
  split at hs
  · cases hs
  · rename_i hm
    simp only at hs
    split at hs
    · cases hs
      exact h.congr rfl rfl rfl fun hp => ⟨(h.initial hp).1, hm⟩
    · rename_i hst hp
      cases hs
      refine ⟨nofun, fun hc => ?_, fun e he => ?_⟩
      · cases hp.symm.trans (h.completed hc)
      · rcases h.thrown e he with ht | ht <;> cases hp.symm.trans ht
    · rename_i hne
      cases hs
      exact h.congr rfl rfl rfl fun hp => absurd hp hne
    · cases hs
      exact h.congr rfl rfl rfl fun hp => ⟨(h.initial hp).1, hm⟩

theorem completeCommon (h : TaskInv b) {caller : Caller Node} {e : Option (Exn ε)}
    {r : Reply Node ε} (hs : b.completeCommon caller e = some (b', r)) : TaskInv b' := by
  unfold Block.completeCommon at hs
  split at hs
  · cases hs
  · rename_i hm
    simp only at hs
    split_ifs at hs
    · cases hs
      exact h.congr rfl rfl rfl fun hp => ⟨(h.initial hp).1, hm⟩
    · split at hs
      · cases hs
        exact h.congr rfl rfl rfl fun hp => ⟨(h.initial hp).1, hm⟩
      · cases hs
        exact h.congr rfl rfl rfl fun hp => ⟨(h.initial hp).1, hm⟩
      · rename_i hne _
        cases hs
        exact h.congr rfl rfl rfl fun hp => absurd (h.initial hp).1 hne

/-- `Wait()` returns from the processing task, which has started. -/
theorem waited (h : TaskInv b) {caller : Caller Node} {e : Option (Exn ε)}
    {r : Except (Exn ε) Unit} (hm : b.stateMutex ≠ none) (hr : b.processingTask.outcome = some r) :
    TaskInv (b.waited caller e r) := by
  have hne : b.processingTask ≠ .initial := fun hp => hm (h.initial hp).2
  have hfin : b.processingTask = .finished r := by
    cases hp : b.processingTask <;> rw [hp] at hr hne
    case initial => exact absurd rfl hne
    case finished => cases hr; rfl
    all_goals cases hr
  cases r with
  | ok u =>
    refine ⟨fun hp => absurd hp hne, fun _ => hfin, fun e he => ?_⟩
    exact h.thrown e he
  | error ex => exact ⟨fun hp => absurd hp hne, h.completed, h.thrown⟩

theorem advance (h : TaskInv b) {r : NextCall Node ε} (hs : b.advance = some (b', r)) :
    TaskInv b' := by
  have hne : ∀ a, b.stateMutex = some a → b.processingTask ≠ .initial := fun a hm hp => by
    cases hm.symm.trans (h.initial hp).2
  cases Block.advance_cases hs with
  | waited hm hr => exact h.waited (by rw [hm]; nofun) hr
  | opened hm | startNext hm | cancel hm | canceled hm | runCancel hm | finished hm | rethrown hm
  | completeNext hm | throwing hm =>
    exact h.congr rfl rfl rfl fun hp => absurd hp (hne _ hm)

/-- The processing task goes on: it was neither at its start nor ended. -/
theorem move (h : TaskInv b) (h1 : b'.completedTask = b.completedTask) (h2 : b'.thrown = b.thrown)
    (hne : b'.processingTask ≠ .initial) (hnf : ∀ r, b.processingTask ≠ .finished r)
    (hnt : ∀ e, b.processingTask ≠ .failed e) : TaskInv b' := by
  refine ⟨fun hp => absurd hp hne, fun hc => ?_, fun e he => ?_⟩
  · rw [h1] at hc
    exact absurd (h.completed hc) (hnf _)
  · rw [h2] at he
    rcases h.thrown e he with ht | ht
    · exact absurd ht (hnt e)
    · exact absurd ht (hnf _)

theorem next_ne_initial (rest : Option (List (QueueItem Node Item))) :
    (Processing.next rest : Processing Node Item ε) ≠ .initial := by
  rcases rest with _ | _ | _ <;> nofun

theorem process (h : TaskInv b) (hs : b.process N n = some b') : TaskInv b' := by
  cases Block.process_cases hs with
  | started hp | canceled hp | take hp | took hp | retry hp | takeFailed hp | invoked hp
  | asked hp =>
    exact h.move rfl rfl nofun (by rw [hp]; nofun) (by rw [hp]; nofun)
  | waiting hp | resume hp =>
    exact h.move rfl rfl (by dsimp only; rw [hp]; nofun) (by rw [hp]; nofun) (by rw [hp]; nofun)
  | propagated hp | drained hp =>
    exact h.move rfl rfl (next_ne_initial _) (by rw [hp]; nofun) (by rw [hp]; nofun)
  | threw hp =>
    refine ⟨nofun, fun hc => ?_, fun e he => ?_⟩
    · cases hp.symm.trans (h.completed hc)
    · cases he
      exact .inl rfl
  | reported hp =>
    refine ⟨nofun, fun hc => ?_, fun e' he => ?_⟩
    · cases hp.symm.trans (h.completed hc)
    · rcases h.thrown e' he with ht | ht
      · cases hp.symm.trans ht
        exact .inr rfl
      · cases hp.symm.trans ht

theorem offered_ne_initial (y : Item) (c : Node) (offer : List Node)
    (rest : Option (List (QueueItem Node Item))) (phase : AcceptPhase ε) :
    DataFlow.offered y c offer rest phase ≠ .initial := by
  cases phase with
  | threw e => exact next_ne_initial rest
  | _ => nofun

theorem closed (N : Network Node Item σ ε) :
    Closed N (fun _ _ => True) fun _ (b : Block Node Item σ ε) => TaskInv b where
  start h := h.start
  completeCommon h := h.completeCommon
  advance h := h.advance
  resumed h := h.congr rfl rfl rfl fun hp =>
    ⟨(h.initial hp).1, by rw [(h.initial hp).2, Option.map_none]⟩
  throwing h hm := h.congr rfl rfl rfl fun hp => by cases hm.symm.trans (h.initial hp).2
  process h := h.process
  asked h hp _ := h.move rfl rfl nofun (by rw [hp]; nofun) (by rw [hp]; nofun)
  offered h hp :=
    h.move rfl rfl (offered_ne_initial _ _ _ _ _) (by rw [hp]; nofun) (by rw [hp]; nofun)
  accept h _ hs := by
    rw [Block.acceptInputAsync_eq hs]
    exact h.congr rfl rfl rfl h.initial
  faultThread h := h.congr rfl rfl rfl h.initial

end TaskInv

theorem reachable_taskInv [DecidableEq Node] {N : Network Node Item σ ε}
    {G : Dataflow Node Item σ ε → DataflowLabel Node Item ε → Prop} {s : Dataflow Node Item σ ε}
    (h : (dataflowMachine N).Reachable G s) (n : Node) : TaskInv (s.block n) :=
  reachable_closed (TaskInv.closed N)
    (fun _ => ⟨fun _ => ⟨rfl, rfl⟩, fun hc => absurd rfl hc, nofun⟩)
    (fun _ _ _ _ _ _ _ => trivial) h n

end AsyncCpp.DataFlow
