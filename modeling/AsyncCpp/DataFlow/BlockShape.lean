import AsyncCpp.DataFlow.AcceptedIsRun

/-!
# The states of a block

What the state of a block says about the thread that holds its mutex, about its counter of
`Start` calls, about its processing task and about its token; and what the processing task
says about the items the function was called on.

Results:
* `reachable_shapeInv`, `reachable_workInv`: these hold in every run.
* `startCallsCount_bounds`: the counter of `Start` calls is bounded by the number of calls.
* `reachable_healthyInv`: in a run in which the functions return and no `Release()` of an
  `AcceptInputAsync` finds the semaphore full, no processing task fails.
-/

namespace AsyncCpp.DataFlow

open Interleaving Tasks AsyncPrimitives

variable {Node Item σ ε : Type*}

/-! ## The state of a block -/

/-- The state of a block whose mutex is held in this section. -/
def Section.state : Section Node ε → BlockState
  | .starting _ | .throwing _ => .created
  | .cancel _ | .canceling _ | .wait _ => .stopping
  | .finally _ _ _ => .stopped

/-- `completeCommon` has got past its tests. -/
def BlockState.isClosed : BlockState → Bool
  | .stopping | .stopped => true
  | .created | .starting | .started => false

/-- The processing task has got past its `co_await _startTask`. -/
def Processing.begun : Processing Node Item ε → Bool
  | .initial | .awaitStart => false
  | _ => true

/-- The processing task is at its `TryTakeAll` or past it. -/
def Processing.draining (p : Processing Node Item ε) : Prop :=
  p = .drain ∨ p.closed

structure ShapeInv (b : Block Node Item σ ε) : Prop where
  section_ : ∀ a, b.stateMutex = some a → b.state = a.section_.state
  stopping : b.state = .stopping → b.stateMutex ≠ none
  starting : b.state ≠ .starting
  count : b.startCallsCount = b.startedBy.length - b.completedBy.length
  stopped : b.state = .stopped → ∃ r, b.processingTask = .finished r
  canceled : (b.inputItems.asyncSemaphore.token ()).isCanceled → b.state.isClosed
  draining : b.processingTask.draining → b.state.isClosed
  startTask : b.startTask.state.isCompleted → b.state ≠ .created
  begun : b.processingTask.begun → b.state ≠ .created

namespace ShapeInv

variable {N : Network Node Item σ ε} {n : Node} {b b' : Block Node Item σ ε}

theorem start (h : ShapeInv b) {caller : Caller Node} {r : Reply Node ε}
    (hs : b.start caller = some (b', r)) : ShapeInv b' := by
  unfold Block.start at hs
  split at hs
  · cases hs
  · rename_i hm
    have hcount : b.startCallsCount + 1 =
        ((b.startedBy ++ [caller]).length : ℤ) - b.completedBy.length := by
      rw [h.count, List.length_append, List.length_singleton]
      omega
    simp only at hs
    split at hs
    · cases hs
      exact { h with count := hcount }
    · rename_i hst hp
      cases hs
      exact {
        h with
        section_ := fun a ha => by
          cases ha
          exact hst
        stopping := fun hst' => by cases hst.symm.trans hst'
        count := hcount
        stopped := fun hst' => by cases hst.symm.trans hst'
        draining := by rintro (hd | hd) <;> cases hd
        begun := nofun }
    · rename_i hst hp
      cases hs
      exact {
        h with
        section_ := fun a ha => by
          cases ha
          exact hst
        stopping := fun hst' => by cases hst.symm.trans hst'
        count := hcount }
    · cases hs
      exact { h with count := hcount }

theorem completeCommon (h : ShapeInv b) {caller : Caller Node} {e : Option (Exn ε)}
    {r : Reply Node ε} (hs : b.completeCommon caller e = some (b', r)) : ShapeInv b' := by
  unfold Block.completeCommon at hs
  split at hs
  · cases hs
  · have hcount : b.startCallsCount - 1 =
        (b.startedBy.length : ℤ) - (b.completedBy ++ [caller]).length := by
      rw [h.count, List.length_append, List.length_singleton]
      omega
    simp only at hs
    split_ifs at hs
    · cases hs
      exact { h with count := hcount }
    · split at hs
      · cases hs
        exact { h with count := hcount }
      · cases hs
        exact { h with count := hcount }
      · cases hs
        exact {
          h with
          section_ := fun a ha => by
            cases ha
            rfl
          stopping := nofun
          starting := nofun
          count := hcount
          stopped := nofun
          canceled := fun _ => rfl
          draining := fun _ => rfl
          startTask := nofun
          begun := nofun }

/-- A block that is through with `_processingTask.Wait()`. -/
theorem waited (h : ShapeInv b) {caller : Caller Node} {e : Option (Exn ε)}
    {r : Except (Exn ε) Unit} (hp : b.processingTask = .finished r) :
    ShapeInv (b.waited caller e r) := by
  cases r with
  | ok u | error ex =>
    exact {
      h with
      section_ := fun a ha => by
        cases ha
        rfl
      stopping := nofun
      starting := nofun
      stopped := fun _ => ⟨_, hp⟩
      canceled := fun _ => rfl
      draining := fun _ => rfl
      startTask := nofun
      begun := nofun }

/-- The mutex is let go, in a state other than `Stopping`. -/
theorem unlock (h : ShapeInv b) (hst : b.state ≠ .stopping) :
    ShapeInv { b with stateMutex := none } :=
  { h with
    section_ := nofun
    stopping := fun hst' => absurd hst' hst }

/-- The section moves on within its state. -/
theorem relock (h : ShapeInv b) {a a' : Activation Node ε} (hm : b.stateMutex = some a)
    (heq : b' = { b with
      stateMutex := some a', toStart := b'.toStart, toComplete := b'.toComplete })
    (hst : a'.section_.state = a.section_.state) : ShapeInv b' := by
  rw [heq]
  exact {
    h with
    section_ := fun a₂ ha => by
      cases ha
      exact (h.section_ a hm).trans hst.symm
    stopping := nofun }

theorem advance (h : ShapeInv b) (ht : TaskInv b) {r : NextCall Node ε}
    (hs : b.advance = some (b', r)) : ShapeInv b' := by
  cases Block.advance_cases hs with
  | opened hm =>
    have hst := h.section_ _ hm
    have hcl : ¬ b.state.isClosed := by
      rw [hst]
      nofun
    exact {
      h with
      section_ := nofun
      stopping := nofun
      starting := nofun
      stopped := nofun
      canceled := fun hc => absurd (h.canceled hc) hcl
      draining := fun hd => absurd (h.draining hd) hcl
      startTask := nofun
      begun := nofun }
  | startNext hm | canceled hm | completeNext hm => exact h.relock hm rfl rfl
  | cancel hm hq =>
    have hst := h.section_ _ hm
    exact {
      h with
      section_ := fun a ha => by
        cases ha
        exact hst
      stopping := nofun
      canceled := fun _ => by
        rw [hst]
        rfl }
  | runCancel hm hq =>
    exact {
      h with
      canceled := fun hc => by
        rw [AsyncCollection.step_isCanceled nofun hq] at hc
        exact h.canceled hc }
  | @waited caller e r hm hr =>
    refine h.waited ?_
    have hne : b.processingTask ≠ .initial := fun hp => by
      cases hm.symm.trans (ht.initial hp).2
    cases hp : b.processingTask <;> rw [hp] at hr hne
    case initial => exact absurd rfl hne
    case finished =>
      cases hr
      rfl
    all_goals cases hr
  | finished hm | rethrown hm | throwing hm =>
    exact h.unlock (by rw [h.section_ _ hm]; nofun)

/-- The processing task goes on. -/
theorem move (h : ShapeInv b) {p : Processing Node Item ε} (hb : b.processingTask.begun)
    (hnf : ∀ r, b.processingTask ≠ .finished r) (hp : b'.processingTask = p)
    (heq : b' = { b with
      processingTask := b'.processingTask, inputItems := b'.inputItems, ran := b'.ran
      nodeState := b'.nodeState, thrown := b'.thrown, faultThread := b'.faultThread })
    (htoken : (b'.inputItems.asyncSemaphore.token ()).isCanceled =
      (b.inputItems.asyncSemaphore.token ()).isCanceled)
    (hdrain : p.draining → b.state.isClosed) : ShapeInv b' := by
  rw [heq]
  exact {
    h with
    stopped := fun hst => by
      obtain ⟨r, hr⟩ := h.stopped hst
      exact absurd hr (hnf r)
    canceled := fun hc => h.canceled (htoken ▸ hc)
    draining := fun hd => hdrain (hp ▸ hd)
    begun := fun _ => h.begun hb }

theorem resumed (h : ShapeInv b) :
    ShapeInv { b with stateMutex := b.stateMutex.map Activation.resumed } :=
  { h with
    section_ := fun a ha => by
      obtain ⟨a', ha', rfl⟩ := Option.map_eq_some_iff.mp ha
      rw [h.section_ a' ha']
      obtain ⟨caller, sec⟩ := a'
      cases sec <;> rfl
    stopping := fun hst hm => h.stopping hst (by simpa using hm) }

/-- After the loop body. -/
theorem draining_next {rest : Option (List (QueueItem Node Item))}
    (h : (Processing.next rest : Processing Node Item ε).draining) : rest.isSome := by
  rcases h with h | h
  · rcases rest with _ | _ | _ <;> cases h
  · exact QueueInv.next_closed h

theorem process (h : ShapeInv b) (hs : b.process N n = some b') : ShapeInv b' := by
  have hnone : ∀ p : Processing Node Item ε, p ≠ .drain → p.closed = false →
      p.draining → b.state.isClosed := by
    rintro p hp hc (hd | hd)
    · exact absurd hd hp
    · rw [hc] at hd
      cases hd
  have hsome : ∀ p : Processing Node Item ε, (p.draining → b.processingTask.closed) →
      p.draining → b.state.isClosed := fun p hp hd => h.draining (.inr (hp hd))
  cases Block.process_cases hs with
  | started hp hst =>
    exact {
      h with
      stopped := fun hst' => by
        obtain ⟨r, hr⟩ := h.stopped hst'
        cases hp.symm.trans hr
      draining := hnone .loop nofun rfl
      begun := fun _ => h.startTask hst }
  | canceled hp hc =>
    exact h.move (by rw [hp]; rfl) (by rw [hp]; nofun) rfl rfl rfl fun _ => h.canceled hc
  | take hp hq =>
    exact h.move (by rw [hp]; rfl) (by rw [hp]; nofun) rfl rfl
      (AsyncCollection.step_isCanceled nofun hq ()) (hnone _ nofun rfl)
  | waiting hp hq | resume hp ho hq =>
    exact h.move (by rw [hp]; rfl) (by rw [hp]; nofun) hp rfl
      (AsyncCollection.step_isCanceled nofun hq ()) (hnone _ nofun rfl)
  | took hp | retry hp | takeFailed hp | threw hp =>
    exact h.move (by rw [hp]; rfl) (by rw [hp]; nofun) rfl rfl rfl (hnone _ nofun rfl)
  | invoked hp | asked hp =>
    refine h.move (by rw [hp]; rfl) (by rw [hp]; nofun) rfl rfl rfl (hsome _ ?_)
    rintro (hd | hd)
    · cases hd
    · rw [hp]
      exact hd
  | propagated hp =>
    refine h.move (by rw [hp]; rfl) (by rw [hp]; nofun) rfl rfl rfl (hsome _ fun hd => ?_)
    rw [hp]
    exact draining_next hd
  | drained hp hq =>
    refine h.move (by rw [hp]; rfl) (by rw [hp]; nofun) rfl rfl
      (AsyncCollection.step_isCanceled nofun hq ()) fun _ => h.draining (.inl hp)
  | reported hp =>
    exact h.move (by rw [hp]; rfl) (by rw [hp]; nofun) rfl rfl rfl (hnone _ nofun rfl)

theorem offered (h : ShapeInv b) {y : Item} {phase phase' : AcceptPhase ε} {c : Node}
    {offer : List Node} {rest : Option (List (QueueItem Node Item))}
    (hp : b.processingTask = .offering y phase (c :: offer) rest) :
    ShapeInv { b with processingTask := offered y c offer rest phase' } := by
  refine h.move (by rw [hp]; rfl) (by rw [hp]; nofun) rfl rfl rfl fun hd => h.draining (.inr ?_)
  rw [hp]
  cases phase' with
  | threw e => exact draining_next hd
  | _ =>
    rcases hd with hd | hd
    · cases hd
    · exact hd

/-- A call of `AcceptInputAsync` does not touch the token. -/
theorem accept (h : ShapeInv b) {x : QueueItem Node Item} {phase phase' : AcceptPhase ε}
    (hs : b.acceptInputAsync x phase = some (b', phase')) : ShapeInv b' := by
  have htoken : (b'.inputItems.asyncSemaphore.token ()).isCanceled =
      (b.inputItems.asyncSemaphore.token ()).isCanceled := by
    cases Block.acceptInputAsync_cases hs with
    | started | notStarted => rfl
    | push hq | full hq | release hq | releasing hq =>
      exact AsyncCollection.step_isCanceled nofun hq ()
  rw [Block.acceptInputAsync_eq hs]
  exact { h with canceled := fun hc => h.canceled (htoken ▸ hc) }

theorem closed (N : Network Node Item σ ε) :
    Closed N (fun _ _ => True) fun _ (b : Block Node Item σ ε) => TaskInv b ∧ ShapeInv b where
  start h hs := ⟨h.1.start hs, h.2.start hs⟩
  completeCommon h hs := ⟨h.1.completeCommon hs, h.2.completeCommon hs⟩
  advance h hs := ⟨h.1.advance hs, h.2.advance h.1 hs⟩
  resumed {n _} h := ⟨(TaskInv.closed N).resumed (n := n) h.1, h.2.resumed⟩
  throwing {n _ _ _ _} h hm := ⟨(TaskInv.closed N).throwing (n := n) h.1 hm, {
    h.2 with
    section_ := fun a ha => by
      cases ha
      exact (h.2.section_ _ hm).trans rfl
    stopping := nofun }⟩
  process h hs := ⟨h.1.process hs, h.2.process hs⟩
  asked {n b y c ask offer rest offer'} h hp ho :=
    ⟨(TaskInv.closed N).asked (n := n) h.1 hp ho, by
      refine h.2.move (by rw [hp]; rfl) (by rw [hp]; nofun) rfl rfl rfl fun hd => ?_
      refine h.2.draining (.inr ?_)
      rw [hp]
      rcases hd with hd | hd
      · cases hd
      · exact hd⟩
  offered {n _ _ _ _ _ _ _} h hp := ⟨(TaskInv.closed N).offered (n := n) h.1 hp, h.2.offered hp⟩
  accept {n _ _ _ _ _} h _ hs := ⟨(TaskInv.closed N).accept (n := n) h.1 trivial hs, h.2.accept hs⟩
  faultThread {n _} h := ⟨(TaskInv.closed N).faultThread (n := n) h.1, { h.2 with }⟩

end ShapeInv

theorem reachable_shapeInv [DecidableEq Node] {N : Network Node Item σ ε}
    {G : Dataflow Node Item σ ε → DataflowLabel Node Item ε → Prop} {s : Dataflow Node Item σ ε}
    (h : (dataflowMachine N).Reachable G s) (n : Node) : ShapeInv (s.block n) := by
  refine (reachable_closed (ShapeInv.closed N) (fun m => ⟨?_, ?_⟩)
    (fun _ _ _ _ _ _ _ => trivial) h n).2
  · exact ⟨fun _ => ⟨rfl, rfl⟩, fun hc => absurd rfl hc, nofun⟩
  · exact ⟨nofun, nofun, nofun, rfl, nofun, nofun, (by rintro (hd | hd) <;> cases hd), nofun, nofun⟩

/-- `_startCallsCount` counts calls: as an `int` it does not overflow in a run with at most
    `INT_MAX` calls of `Start` and of `Complete` on the block. -/
theorem startCallsCount_bounds [DecidableEq Node] {N : Network Node Item σ ε}
    {G : Dataflow Node Item σ ε → DataflowLabel Node Item ε → Prop} {s : Dataflow Node Item σ ε}
    (h : (dataflowMachine N).Reachable G s) (n : Node) :
    -((s.block n).completedBy.length : ℤ) ≤ (s.block n).startCallsCount ∧
      (s.block n).startCallsCount ≤ (s.block n).startedBy.length := by
  have hcount := (reachable_shapeInv h n).count
  omega

/-! ## What the function was called on -/

/-- The function of block `n` is called on `x` after it has produced `p.1`, in state `p.2`. -/
def Network.produce (N : Network Node Item σ ε) (n : Node) (p : List Item × σ)
    (x : QueueItem Node Item) : List Item × σ :=
  match N.transformFunc n p.2 x.item with
  | (.ok y, st) => (p.1 ++ [y], st)
  | (.error _, st) => (p.1, st)

/-- What the function of block `n` produces on the items `xs`, one after the other, and the
    state it ends in. -/
def Network.produced (N : Network Node Item σ ε) (n : Node) (xs : List (QueueItem Node Item)) :
    List Item × σ :=
  xs.foldl (N.produce n) ([], N.initialState n)

theorem Network.produced_append (N : Network Node Item σ ε) (n : Node)
    (xs : List (QueueItem Node Item)) (x : QueueItem Node Item) :
    N.produced n (xs ++ [x]) = N.produce n (N.produced n xs) x := by
  simp [Network.produced]

theorem Network.produce_snd (N : Network Node Item σ ε) (n : Node) (p : List Item × σ)
    (x : QueueItem Node Item) : (N.produce n p x).2 = (N.transformFunc n p.2 x.item).2 := by
  unfold Network.produce
  split <;> rename_i hf <;> rw [hf]

/-- The next blocks that `propagateOutput` has still to ask or to offer its item to. -/
def Processing.targets : Processing Node Item ε → List Node
  | .asking _ ask offer _ => offer ++ ask
  | .offering _ _ offer _ => offer
  | _ => []

/-- The state the function has left, and the blocks its result goes to. -/
structure WorkInv (N : Network Node Item σ ε) (n : Node) (b : Block Node Item σ ε) : Prop where
  nodeState : b.nodeState = (N.produced n b.ran).2
  targets : b.processingTask.targets.Sublist (N.outputNodes n)

namespace WorkInv

variable {N : Network Node Item σ ε} {n : Node} {b b' : Block Node Item σ ε}

theorem targets_next (rest : Option (List (QueueItem Node Item))) :
    (Processing.next rest : Processing Node Item ε).targets = [] := by
  rcases rest with _ | _ | _ <;> rfl

theorem process (h : WorkInv N n b) (hs : b.process N n = some b') : WorkInv N n b' := by
  cases Block.process_cases hs with
  | started hp | canceled hp | take hp | took hp | retry hp | takeFailed hp | reported hp =>
    exact ⟨h.nodeState, List.nil_sublist _⟩
  | waiting hp hq | resume hp ho hq => exact ⟨h.nodeState, h.targets⟩
  | invoked hp hf =>
    refine ⟨?_, List.Sublist.refl _⟩
    simp only [Network.produced_append, Network.produce, ← h.nodeState, hf]
  | threw hp hf =>
    refine ⟨?_, List.nil_sublist _⟩
    simp only [Network.produced_append, Network.produce, ← h.nodeState, hf]
  | asked hp =>
    have htargets := h.targets
    rw [hp] at htargets
    exact ⟨h.nodeState, by simpa [Processing.targets] using htargets⟩
  | propagated hp | drained hp hq =>
    exact ⟨h.nodeState, by rw [targets_next]; exact List.nil_sublist _⟩

theorem closed (N : Network Node Item σ ε) :
    Closed N (fun _ _ => True) fun n (b : Block Node Item σ ε) => WorkInv N n b where
  start h hs := by
    obtain ⟨heq, hp | ⟨-, hp⟩⟩ := Block.start_eq hs
    · rw [heq, hp]
      exact ⟨h.nodeState, h.targets⟩
    · rw [heq, hp]
      exact ⟨h.nodeState, List.nil_sublist _⟩
  completeCommon h hs := by rw [Block.completeCommon_eq hs]; exact ⟨h.nodeState, h.targets⟩
  advance h hs := by rw [(Block.advance_eq hs).1]; exact ⟨h.nodeState, h.targets⟩
  resumed h := ⟨h.nodeState, h.targets⟩
  throwing h _ := ⟨h.nodeState, h.targets⟩
  process h hs := h.process hs
  asked {n b y c ask offer rest offer'} h hp ho := by
    have htargets := h.targets
    rw [hp] at htargets
    refine ⟨h.nodeState, List.Sublist.trans ?_ htargets⟩
    rcases ho with rfl | rfl
    · exact (List.sublist_cons_self c ask).append_left offer'
    · simp [Processing.targets]
  offered {n b y phase c offer rest phase'} h hp := by
    have htargets := h.targets
    rw [hp] at htargets
    refine ⟨h.nodeState, List.Sublist.trans ?_ htargets⟩
    cases phase' with
    | threw e =>
      simp only [offered, targets_next]
      exact List.nil_sublist _
    | returned => exact List.sublist_cons_self c offer
    | _ => exact List.Sublist.refl _
  accept h _ hs := by rw [Block.acceptInputAsync_eq hs]; exact ⟨h.nodeState, h.targets⟩
  faultThread h := ⟨h.nodeState, h.targets⟩

end WorkInv

theorem reachable_workInv [DecidableEq Node] {N : Network Node Item σ ε}
    {G : Dataflow Node Item σ ε → DataflowLabel Node Item ε → Prop} {s : Dataflow Node Item σ ε}
    (h : (dataflowMachine N).Reachable G s) (n : Node) : WorkInv N n (s.block n) :=
  reachable_closed (WorkInv.closed N) (fun _ => ⟨rfl, List.nil_sublist _⟩)
    (fun _ _ _ _ _ _ _ => trivial) h n

/-! ## Runs without failures -/

/-- Every function returns. -/
def Network.Returns (N : Network Node Item σ ε) : Prop :=
  ∀ n st item, ∃ y st', N.transformFunc n st item = (.ok y, st')

/-- The processing task has not failed and cannot fail in its next `TakeAsync`. -/
structure HealthyInv (b : Block Node Item σ ε) : Prop where
  notFailed : b.processingTask.hasFailed = false
  faultThread : b.faultThread = none
  queue : b.processingTask.closed = false → CollectionInv b.inputItems

namespace HealthyInv

variable {N : Network Node Item σ ε} {n : Node} {b b' : Block Node Item σ ε}

/-- The queue stays. -/
theorem move (h : HealthyInv b) (h1 : b'.inputItems = b.inputItems)
    (h2 : b'.faultThread = b.faultThread) (hf : b'.processingTask.hasFailed = false)
    (hc : b'.processingTask.closed = false → b.processingTask.closed = false) : HealthyInv b' :=
  ⟨hf, h2.trans h.faultThread, fun hc' => h1 ▸ h.queue (hc hc')⟩

/-- The queue takes a step that `CollectionInv` knows of. -/
theorem queue_step (h : HealthyInv b) {a : CollectionLabel Unit (QueueItem Node Item)}
    {q : AsyncCollection Unit (QueueItem Node Item) ε} (hq : b.inputItems.step a = some q)
    (ha : b.processingTask.closed = false → InStep b.inputItems a) (h1 : b'.inputItems = q)
    (h2 : b'.faultThread = b.faultThread) (hf : b'.processingTask.hasFailed = false)
    (hc : b'.processingTask.closed = false → b.processingTask.closed = false) : HealthyInv b' :=
  ⟨hf, h2.trans h.faultThread, fun hc' => h1 ▸ (h.queue (hc hc')).step (ha (hc hc')) hq⟩

theorem hasFailed_next (rest : Option (List (QueueItem Node Item))) :
    (Processing.next rest : Processing Node Item ε).hasFailed = false := by
  rcases rest with _ | _ | _ <;> rfl

theorem closed_next (rest : Option (List (QueueItem Node Item))) :
    (Processing.next rest : Processing Node Item ε).closed = rest.isSome := by
  rcases rest with _ | _ | _ <;> rfl

theorem process (h : HealthyInv b)
    (hok : ∀ x rest, b.processingTask = .invoke x rest →
      ∃ y st, N.transformFunc n b.nodeState x.item = (.ok y, st))
    (hs : b.process N n = some b') : HealthyInv b' := by
  cases Block.process_cases hs with
  | started hp | canceled hp | took hp | retry hp =>
    exact h.move rfl rfl rfl fun _ => by rw [hp]; rfl
  | take hp hq =>
    exact h.queue_step hq (fun _ => ⟨nofun, nofun⟩) rfl rfl rfl fun _ => by rw [hp]; rfl
  | waiting hp hq | resume hp ho hq =>
    exact h.queue_step hq (fun _ => ⟨nofun, nofun⟩) rfl rfl h.notFailed id
  | @takeFailed i e hp ho he =>
    -- a `TakeAsync` of a queue that is in step fails only where its token is cancelled
    have hout := (h.queue (by rw [hp]; rfl)).outcome i
    rw [ho] at hout
    exact absurd hout.2 he
  | invoked hp | asked hp => exact h.move rfl rfl rfl fun hc => by rw [hp]; exact hc
  | threw hp hf =>
    obtain ⟨y, st, hy⟩ := hok _ _ hp
    cases hf.symm.trans hy
  | propagated hp =>
    refine h.move rfl rfl (hasFailed_next _) fun hc => ?_
    rw [hp]
    rwa [closed_next] at hc
  | drained hp hq =>
    refine ⟨hasFailed_next _, h.faultThread, fun hc => ?_⟩
    rw [closed_next] at hc
    cases hc
  | reported hp =>
    have hnot := h.notFailed
    rw [hp] at hnot
    cases hnot

theorem offered (h : HealthyInv b) {y : Item} {phase phase' : AcceptPhase ε} {c : Node}
    {offer : List Node} {rest : Option (List (QueueItem Node Item))}
    (hp : b.processingTask = .offering y phase (c :: offer) rest) :
    HealthyInv { b with processingTask := offered y c offer rest phase' } := by
  cases phase' with
  | threw e =>
    refine h.move rfl rfl (hasFailed_next _) fun hc => ?_
    rw [hp]
    simp only [DataFlow.offered] at hc
    rwa [closed_next] at hc
  | _ => exact h.move rfl rfl rfl fun hc => by rw [hp]; exact hc

theorem accept (h : HealthyInv b) {x : QueueItem Node Item} {phase phase' : AcceptPhase ε}
    (hA : phase = .release → ¬ b.full) (hs : b.acceptInputAsync x phase = some (b', phase')) :
    HealthyInv b' := by
  cases Block.acceptInputAsync_cases hs with
  | started | notStarted => exact h
  | push hq | releasing hq =>
    exact h.queue_step hq (fun _ => ⟨nofun, nofun⟩) rfl rfl h.notFailed id
  | full hq hfull => exact absurd hfull (hA rfl)
  | release hq hfull =>
    exact h.queue_step hq (fun _ => ⟨nofun, fun _ => hfull⟩) rfl rfl h.notFailed id

theorem closed_calls : ClosedCalls fun (_ : Node) (b : Block Node Item σ ε) => HealthyInv b where
  start h hs := by
    obtain ⟨heq, hp | ⟨hp, hp'⟩⟩ := Block.start_eq hs
    · exact h.move (by rw [heq]) (by rw [heq]) (by rw [hp]; exact h.notFailed)
        (by rw [hp]; exact id)
    · exact h.move (by rw [heq]) (by rw [heq]) (by rw [hp']; rfl) fun _ => by rw [hp]; rfl
  completeCommon h hs := by
    rw [Block.completeCommon_eq hs]
    exact h.move rfl rfl h.notFailed id
  advance h hs := by
    obtain ⟨heq, hq | ⟨a, ha, hq⟩⟩ := Block.advance_eq hs
    · exact h.move hq (by rw [heq]) (by rw [heq]; exact h.notFailed) (by rw [heq]; exact id)
    · refine h.queue_step hq (fun _ => ?_) rfl (by rw [heq]) (by rw [heq]; exact h.notFailed)
        (by rw [heq]; exact id)
      rcases ha with rfl | rfl <;> exact ⟨nofun, nofun⟩
  resumed h := h.move rfl rfl h.notFailed id
  throwing h _ := h.move rfl rfl h.notFailed id
  faultThread h := ⟨h.notFailed, rfl, h.queue⟩

theorem closed_ops (hok : N.Returns) :
    Closed N (fun phase b => phase = .release → ¬ b.full)
      fun _ (b : Block Node Item σ ε) => HealthyInv b where
  toClosedCalls := closed_calls
  process h hs := h.process (fun x _ _ => hok _ _ x.item) hs
  asked h hp _ := h.move rfl rfl rfl fun hc => by rw [hp]; exact hc
  offered h hp := h.offered hp
  accept h hA hs := h.accept hA hs

end HealthyInv

/-- No `Release()` of an `AcceptInputAsync` finds the semaphore of its queue full. -/
def Roomy (s : Dataflow Node Item σ ε) (a : DataflowLabel Node Item ε) : Prop :=
  ∀ c x, s.accepting a = some (c, x, .release) → ¬ (s.block c).full

/-- `Roomy`, computed. -/
def Dataflow.hasRoom (s : Dataflow Node Item σ ε) (a : DataflowLabel Node Item ε) : Bool :=
  match s.accepting a with
  | some (c, _, .release) => ¬ (s.block c).full
  | _ => true

theorem Roomy.of_hasRoom {s : Dataflow Node Item σ ε} {a : DataflowLabel Node Item ε}
    (h : s.hasRoom a) : Roomy s a := by
  intro c x hacc
  simpa [Dataflow.hasRoom, hacc] using h

theorem reachable_healthyInv [DecidableEq Node] {N : Network Node Item σ ε} (hok : N.Returns)
    {G : Dataflow Node Item σ ε → DataflowLabel Node Item ε → Prop} {s : Dataflow Node Item σ ε}
    (hG : ∀ s a, G s a → Roomy s a) (h : (dataflowMachine N).Reachable G s) (n : Node) :
    HealthyInv (s.block n) := by
  refine reachable_closed (HealthyInv.closed_ops hok) (fun m => ⟨rfl, rfl, fun _ => ?_⟩) ?_ h n
  · exact reachable_collectionInv .init
  · rintro s a hg c x phase hacc rfl
    exact hG s a hg c x hacc

end AsyncCpp.DataFlow
