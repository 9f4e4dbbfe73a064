import AsyncCpp.DataFlow.StartComplete

/-!
# Functions that call blocks

The function of a block runs in the processing task, from its call to its return, and may
itself call `AcceptInputAsync`, `CanAcceptInput` or `Complete` of any block. The network is
that of DataFlow/DataFlowBlock.lean; the step in which the processing task calls the function
there is the one in which the function returns here. `Tell` of an actor is
`AcceptInputAsync`. A call a function makes is one of the calls of the user.

Results:
* `reachable_dataflow`: a run with such functions is a run of the network.
* `reachable_eventsInv`: the calls of the function of a block follow one another.
* `CalleeInv.step`: a function is only in calls it may make.
-/

namespace AsyncCpp.DataFlow

open Interleaving Tasks AsyncPrimitives

/-- Where the function of a block is. -/
inductive HandlerPc (Node : Type*) where
  /-- It is not called. -/
  | idle
  | running
  /-- In `CanAcceptInput` of `m`. -/
  | canAcceptInput (m : Node)
  /-- In call `k` of `AcceptInputAsync`. -/
  | acceptInputAsync (k : ℕ)
  /-- In `Complete` of `m`, before its critical section and in it. -/
  | complete (m : Node)
  | completing (m : Node)
  deriving DecidableEq

inductive HandlerEvent (Node Item : Type*) where
  | called (x : QueueItem Node Item)
  | left (x : QueueItem Node Item)

/-- The network and the functions of its blocks. `events` is history. -/
structure HandlerSystem (Node Item σ ε : Type*) where
  dataflow : Dataflow Node Item σ ε
  handler : Node → HandlerPc Node := fun _ => .idle
  events : Node → List (HandlerEvent Node Item) := fun _ => []

inductive HandlerLabel (Node Item ε : Type*) where
  /-- A step of the network, other than a call a function makes. -/
  | dataflow (a : DataflowLabel Node Item ε)
  /-- The processing task of `n` calls the function. -/
  | call (n : Node)
  /-- The function of `n` calls block `m`. -/
  | canAcceptInput (n m : Node)
  | acceptInputAsync (n m : Node) (item : Item)
  | complete (n m : Node)
  /-- The function of `n` goes on in the call it made. -/
  | resume (n : Node)

variable {Node Item σ ε : Type*}

/-- The item the function is called on next. -/
def Processing.invoking : Processing Node Item ε → Option (QueueItem Node Item)
  | .invoke x _ => some x
  | _ => none

variable [DecidableEq Node]

namespace HandlerSystem

/-- The network has moved to `t` in step `a`. A function has left its call, or the call of
    `Complete` it made has returned. -/
def moved (s : HandlerSystem Node Item σ ε) (a : DataflowLabel Node Item ε)
    (t : Dataflow Node Item σ ε) : HandlerSystem Node Item σ ε :=
  match a with
  | .process n =>
    match (s.dataflow.block n).processingTask.invoking with
    | some x =>
      { dataflow := t
        handler := Function.update s.handler n .idle
        events := Function.update s.events n (s.events n ++ [.left x]) }
    | none => { s with dataflow := t }
  | .advance m =>
    { s with
      dataflow := t
      handler := fun p =>
        if s.handler p = .completing m ∧ (t.block m).stateMutex.isNone then .running
        else s.handler p }
  | _ => { s with dataflow := t }

/-- The processing task waits for the function to return. -/
def inHandler (s : HandlerSystem Node Item σ ε) : DataflowLabel Node Item ε → Bool
  | .process n =>
    (s.dataflow.block n).processingTask.invoking.isSome && s.handler n ≠ .running
  | _ => false

/-- The function of `n` goes to `pc`. -/
def goto (s : HandlerSystem Node Item σ ε) (n : Node) (pc : HandlerPc Node) :
    HandlerSystem Node Item σ ε :=
  { s with handler := Function.update s.handler n pc }

/-- The function of `n`, running, goes to `pc`. -/
def begin (s : HandlerSystem Node Item σ ε) (n : Node) (pc : HandlerPc Node) :
    Option (HandlerSystem Node Item σ ε) :=
  if s.handler n = .running then some (s.goto n pc) else none

/-- The function of `n` goes on in the call it made. -/
def resume (N : Network Node Item σ ε) (s : HandlerSystem Node Item σ ε) (n : Node) :
    Option (HandlerSystem Node Item σ ε) :=
  match s.handler n with
  | .canAcceptInput m =>
    if (s.dataflow.block m).stateMutex.isNone then some (s.goto n .running) else none
  | .acceptInputAsync k =>
    match s.dataflow.call k with
    | some c => if c.phase.ended then some (s.goto n .running) else none
    | none => none
  | .complete m =>
    (s.dataflow.step N (.complete m)).map fun t =>
      { s.goto n (if (t.block m).stateMutex.isNone then .running else .completing m) with
        dataflow := t }
  | .idle | .running | .completing _ => none

def step (N : Network Node Item σ ε) (s : HandlerSystem Node Item σ ε)
    (a : HandlerLabel Node Item ε) : Option (HandlerSystem Node Item σ ε) :=
  if s.dataflow.terminated then none
  else
    match a with
    | .dataflow a =>
      if s.inHandler a then none else (s.dataflow.step N a).map fun t => s.moved a t
    | .call n =>
      match s.handler n, (s.dataflow.block n).processingTask.invoking with
      | .idle, some x =>
        some { s.goto n .running with
          events := Function.update s.events n (s.events n ++ [.called x]) }
      | _, _ => none
    | .canAcceptInput n m => s.begin n (.canAcceptInput m)
    | .acceptInputAsync n m item =>
      (s.dataflow.step N (.acceptInputAsync m item)).bind fun t =>
        { s with dataflow := t }.begin n (.acceptInputAsync s.dataflow.calls)
    | .complete n m => s.begin n (.complete m)
    | .resume n => s.resume N n

/-- The step of the network that a step is. -/
def base (s : HandlerSystem Node Item σ ε) :
    HandlerLabel Node Item ε → Option (DataflowLabel Node Item ε)
  | .dataflow a => some a
  | .acceptInputAsync _ m item => some (.acceptInputAsync m item)
  | .resume n =>
    match s.handler n with
    | .complete m => some (.complete m)
    | _ => none
  | .call _ | .canAcceptInput _ _ | .complete _ _ => none

end HandlerSystem

/-- The network as it is constructed and connected. -/
def handlerMachine (N : Network Node Item σ ε) :
    Machine (HandlerSystem Node Item σ ε) (HandlerLabel Node Item ε) where
  init := { dataflow := (dataflowMachine N).init }
  step := HandlerSystem.step N

namespace HandlerSystem

variable {N : Network Node Item σ ε} {s s' : HandlerSystem Node Item σ ε}
  {a : HandlerLabel Node Item ε}

/-! ## The steps -/

/-- What a step can be. -/
inductive HandlerStep (N : Network Node Item σ ε) (s : HandlerSystem Node Item σ ε) :
    HandlerLabel Node Item ε → HandlerSystem Node Item σ ε → Prop
  | dataflow {a : DataflowLabel Node Item ε} {t : Dataflow Node Item σ ε}
    (hin : s.inHandler a = false) (ht : s.dataflow.step N a = some t) :
    HandlerStep N s (.dataflow a) (s.moved a t)
  | call {n : Node} {x : QueueItem Node Item} (hn : s.handler n = .idle)
    (hx : (s.dataflow.block n).processingTask.invoking = some x) :
    HandlerStep N s (.call n)
      { s.goto n .running with
        events := Function.update s.events n (s.events n ++ [.called x]) }
  | canAcceptInput {n m : Node} (hn : s.handler n = .running) :
    HandlerStep N s (.canAcceptInput n m) (s.goto n (.canAcceptInput m))
  | acceptInputAsync {n m : Node} {item : Item} {t : Dataflow Node Item σ ε}
    (hn : s.handler n = .running) (ht : s.dataflow.step N (.acceptInputAsync m item) = some t) :
    HandlerStep N s (.acceptInputAsync n m item)
      { s.goto n (.acceptInputAsync s.dataflow.calls) with dataflow := t }
  | complete {n m : Node} (hn : s.handler n = .running) :
    HandlerStep N s (.complete n m) (s.goto n (.complete m))
  | canAccepted {n m : Node} (hn : s.handler n = .canAcceptInput m) :
    HandlerStep N s (.resume n) (s.goto n .running)
  | accepted {n : Node} {k : ℕ} (hn : s.handler n = .acceptInputAsync k) :
    HandlerStep N s (.resume n) (s.goto n .running)
  | completed {n m : Node} {t : Dataflow Node Item σ ε} (hn : s.handler n = .complete m)
    (ht : s.dataflow.step N (.complete m) = some t) :
    HandlerStep N s (.resume n)
      { s.goto n (if (t.block m).stateMutex.isNone then .running else .completing m) with
        dataflow := t }

theorem step_cases (hs : s.step N a = some s') : HandlerStep N s a s' := by
  have hbegin : ∀ (t : HandlerSystem Node Item σ ε) n pc, t.begin n pc = some s' →
      t.handler n = .running ∧ s' = t.goto n pc := by
    intro t n pc hb
    unfold begin at hb
    split_ifs at hb with hn
    cases hb
    exact ⟨hn, rfl⟩
  unfold step at hs
  split_ifs at hs
  cases a with
  | dataflow a =>
    simp only at hs
    split_ifs at hs with hin
    obtain ⟨t, ht, rfl⟩ := Option.map_eq_some_iff.mp hs
    exact .dataflow (by simpa using hin) ht
  | call n =>
    simp only at hs
    split at hs
    · cases hs
      exact .call ‹_› ‹_›
    · cases hs
  | canAcceptInput n m =>
    obtain ⟨hn, rfl⟩ := hbegin s n _ hs
    exact .canAcceptInput hn
  | acceptInputAsync n m item =>
    obtain ⟨t, ht, hb⟩ := Option.bind_eq_some_iff.mp hs
    obtain ⟨hn, rfl⟩ := hbegin _ n _ hb
    exact .acceptInputAsync hn ht
  | complete n m =>
    obtain ⟨hn, rfl⟩ := hbegin s n _ hs
    exact .complete hn
  | resume n =>
    simp only [resume] at hs
    split at hs
    · split_ifs at hs
      cases hs
      exact .canAccepted ‹_›
    · split at hs
      · split_ifs at hs
        cases hs
        exact .accepted ‹_›
      · cases hs
    · obtain ⟨t, ht, rfl⟩ := Option.map_eq_some_iff.mp hs
      exact .completed ‹_› ht
    all_goals cases hs

theorem moved_dataflow (s : HandlerSystem Node Item σ ε) (a : DataflowLabel Node Item ε)
    (t : Dataflow Node Item σ ε) : (s.moved a t).dataflow = t := by
  cases a with
  | process n =>
    simp only [moved]
    split <;> rfl
  | _ => rfl

/-- A step is a step of the network, or it leaves the network unchanged. -/
theorem step_dataflow (hs : s.step N a = some s') :
    (∃ b, s.base a = some b ∧ s.dataflow.step N b = some s'.dataflow) ∨
      s.base a = none ∧ s'.dataflow = s.dataflow := by
  cases step_cases hs with
  | dataflow hin ht => exact .inl ⟨_, rfl, ht.trans (congrArg some (s.moved_dataflow _ _).symm)⟩
  | call | canAcceptInput | complete => exact .inr ⟨rfl, rfl⟩
  | acceptInputAsync hn ht => exact .inl ⟨_, rfl, ht⟩
  | canAccepted hn | accepted hn => exact .inr ⟨by simp only [base, hn], rfl⟩
  | completed hn ht => exact .inl ⟨_, by simp only [base, hn], ht⟩

end HandlerSystem

open HandlerSystem

/-! ## The calls of a function -/

/-- The history of the calls on `xs`, one after the other. -/
def callEvents (xs : List (QueueItem Node Item)) : List (HandlerEvent Node Item) :=
  xs.flatMap fun x => [.called x, .left x]

omit [DecidableEq Node] in
theorem callEvents_append (xs : List (QueueItem Node Item)) (x : QueueItem Node Item) :
    callEvents (xs ++ [x]) = callEvents xs ++ [.called x, .left x] := by
  simp [callEvents]

/-- What a function works on. -/
def Block.work (b : Block Node Item σ ε) :
    List (QueueItem Node Item) × Option (QueueItem Node Item) :=
  (b.ran, b.processingTask.invoking)

omit [DecidableEq Node] in
theorem Block.work_calls (f : Node → List (QueueItem Node Item) × Option (QueueItem Node Item)) :
    ClosedCalls fun n (b : Block Node Item σ ε) => b.work = f n where
  start h hs := by
    obtain ⟨heq, hp | ⟨hp, hp'⟩⟩ := Block.start_eq hs
    · rw [heq, hp]
      exact h
    · rw [work, hp] at h
      rw [heq, hp']
      exact h
  completeCommon h hs := by rw [Block.completeCommon_eq hs]; exact h
  advance h hs := by rw [(Block.advance_eq hs).1]; exact h
  resumed h := h
  throwing h _ := h
  faultThread h := h

namespace Dataflow

variable {N : Network Node Item σ ε} {s s' : Dataflow Node Item σ ε}
  {a : DataflowLabel Node Item ε}

/-- The function of `n` works in the steps of the processing task of `n` only. -/
theorem work_of_ne {n : Node} (hs : s.step N a = some s') (hne : a ≠ .process n) :
    (s'.block n).work = (s.block n).work := by
  refine (Block.work_calls fun n => (s.block n).work).step_of_ne (fun _ => rfl) hne ?_ hs
  intro c x phase b' phase' _ hb
  rw [Block.acceptInputAsync_eq hb]
  rfl

/-- A step of the processing task runs the item the function was called on. -/
theorem ran_process {n : Node} (hs : s.step N (.process n) = some s') :
    (s'.block n).ran = (s.block n).ran ++ (s.block n).processingTask.invoking.toList := by
  unfold step at hs
  split_ifs at hs
  rcases process_cases hs with ⟨y, c, ask, offer, rest, hp, -, rfl⟩ |
    ⟨y, phase, c, offer, rest, bc, phase', hp, hb, rfl⟩ | ⟨b, hb, rfl⟩
  · simp [hp, Processing.invoking]
  · have hran : ((s.set c bc).block n).ran = (s.block n).ran :=
      forall_set (P := fun m b => b.ran = (s.block m).ran) (fun _ => rfl)
        (by rw [Block.acceptInputAsync_eq hb]) n
    simp [hp, hran, Processing.invoking]
  · rw [set_block_self]
    cases Block.process_cases hb with
    | invoked hp | threw hp => simp [hp, Processing.invoking]
    | waiting hp | resume hp => simp [hp, Processing.invoking]
    | started hp | canceled hp | take hp | took hp | retry hp | takeFailed hp | asked hp
    | propagated hp | drained hp | reported hp => simp [hp, Processing.invoking]

/-- What was run stays run, in its order. -/
theorem ran_reaches {G : Dataflow Node Item σ ε → DataflowLabel Node Item ε → Prop}
    (h : (dataflowMachine N).Reaches G s s') (n : Node) :
    ∃ xs, (s'.block n).ran = (s.block n).ran ++ xs := by
  refine h.preserves (I := fun t => ∃ xs, (t.block n).ran = (s.block n).ran ++ xs) ?_ ⟨[], by simp⟩
  rintro t a t' ⟨xs, hxs⟩ _ hs
  by_cases hne : a = .process n
  · subst hne
    exact ⟨xs ++ _, by rw [ran_process hs, hxs, List.append_assoc]⟩
  · exact ⟨xs, (congrArg Prod.fst (work_of_ne hs hne)).trans hxs⟩

/-- A call keeps its number and its block. -/
theorem node_step (hs : s.step N a = some s') :
    s.calls ≤ s'.calls ∧ ∀ k, k < s.calls →
      (s'.call k).map AcceptCall.node = (s.call k).map AcceptCall.node := by
  cases calls_cases hs with
  | made n item =>
    exact ⟨Nat.le_succ _, fun k hk =>
      congrArg (Option.map AcceptCall.node) (Function.update_of_ne hk.ne ..)⟩
  | @ran k c b phase hc hb =>
    refine ⟨le_rfl, fun j _ => ?_⟩
    by_cases hj : j = k
    · subst hj
      simp [hc]
    · exact congrArg (Option.map AcceptCall.node) (Function.update_of_ne hj ..)
  | kept hc hcs =>
    rw [hc, hcs]
    exact ⟨le_rfl, fun _ _ => rfl⟩

end Dataflow

namespace HandlerSystem

variable {N : Network Node Item σ ε} {s s' : HandlerSystem Node Item σ ε}
  {a : HandlerLabel Node Item ε}

/-- The calls of the function of a block on the items that were run have ended, and it is in
    its call on the next item unless it is idle. -/
def EventsOk (pc : HandlerPc Node) (events : List (HandlerEvent Node Item))
    (work : List (QueueItem Node Item) × Option (QueueItem Node Item)) : Prop :=
  if pc = .idle then events = callEvents work.1
  else ∃ x, work.2 = some x ∧ events = callEvents work.1 ++ [.called x]

/-- The events of every block. -/
def EventsInv (s : HandlerSystem Node Item σ ε) : Prop :=
  ∀ n, EventsOk (s.handler n) (s.events n) (s.dataflow.block n).work

/-- The function of one block goes from one place of its call to another. -/
theorem EventsInv.goto (h : s.EventsInv) {t : Dataflow Node Item σ ε} {n : Node}
    {pc : HandlerPc Node} (hn : s.handler n ≠ .idle) (hpc : pc ≠ .idle)
    (ht : ∀ m, (t.block m).work = (s.dataflow.block m).work) :
    ({ s.goto n pc with dataflow := t } : HandlerSystem Node Item σ ε).EventsInv := by
  intro m
  have hm := h m
  simp only [HandlerSystem.goto, ht]
  by_cases hmn : m = n
  · subst hmn
    rw [Function.update_self]
    rw [EventsOk, if_neg hn] at hm
    rwa [EventsOk, if_neg hpc]
  · rwa [Function.update_of_ne hmn]

theorem EventsInv.moved (h : s.EventsInv) {a : DataflowLabel Node Item ε}
    {t : Dataflow Node Item σ ε} (hin : s.inHandler a = false)
    (ht : s.dataflow.step N a = some t) : (s.moved a t).EventsInv := by
  intro m
  have hm := h m
  by_cases hproc : a = .process m
  · subst hproc
    have hran := Dataflow.ran_process ht
    simp only [HandlerSystem.moved]
    split
    · rename_i x hx
      have hrun : s.handler m = .running := by simpa [inHandler, hx] using hin
      obtain ⟨x', hx', hev⟩ : ∃ x', (s.dataflow.block m).work.2 = some x' ∧
          s.events m = callEvents (s.dataflow.block m).ran ++ [.called x'] := by
        simpa [EventsOk, hrun, Block.work] using hm
      obtain rfl : x' = x := Option.some.inj (hx'.symm.trans hx)
      rw [hx] at hran
      simp only [Function.update_self, EventsOk, if_pos, Block.work]
      rw [hev, hran, Option.toList_some, callEvents_append]
      simp
    · rename_i hx
      rw [hx, Option.toList_none, List.append_nil] at hran
      have hidle : s.handler m = .idle := by
        by_contra hne
        rw [EventsOk, if_neg hne] at hm
        obtain ⟨x, hx', -⟩ := hm
        cases hx.symm.trans hx'
      rw [EventsOk, if_pos hidle] at hm
      rw [EventsOk, if_pos hidle]
      exact hm.trans (congrArg callEvents hran.symm)
  · have hwork := Dataflow.work_of_ne ht hproc
    cases a with
    | process n =>
      have hmn : m ≠ n := fun he => hproc (he ▸ rfl)
      simp only [HandlerSystem.moved]
      split
      · simp only [Function.update_of_ne hmn, hwork]
        exact hm
      · simp only [hwork]
        exact hm
    | advance n =>
      simp only [HandlerSystem.moved, hwork]
      split_ifs with hc
      · rw [EventsOk, if_neg (by rw [hc.1]; nofun)] at hm
        rwa [EventsOk, if_neg nofun]
      · exact hm
    | _ =>
      simp only [HandlerSystem.moved, hwork]
      exact hm

theorem EventsInv.step (h : s.EventsInv) (hs : s.step N a = some s') : s'.EventsInv := by
  cases step_cases hs with
  | dataflow hin ht => exact h.moved hin ht
  | @call n x hn hx =>
    intro m
    have hm := h m
    simp only [HandlerSystem.goto]
    by_cases hmn : m = n
    · subst hmn
      rw [EventsOk, if_pos hn] at hm
      simp only [Function.update_self]
      rw [EventsOk, if_neg nofun, hm]
      exact ⟨x, hx, rfl⟩
    · simp only [Function.update_of_ne hmn]
      exact hm
  | canAcceptInput hn | complete hn | canAccepted hn | accepted hn =>
    exact h.goto (t := s.dataflow) (by rw [hn]; nofun) nofun fun _ => rfl
  | acceptInputAsync hn ht =>
    exact h.goto (by rw [hn]; nofun) nofun fun m => Dataflow.work_of_ne ht nofun
  | completed hn ht =>
    refine h.goto (by rw [hn]; nofun) ?_ fun m => Dataflow.work_of_ne ht nofun
    split_ifs <;> nofun

/-! ## The blocks a function calls -/

/-- The block the function of `n` has called. -/
def callee (s : HandlerSystem Node Item σ ε) (n : Node) : Option Node :=
  match s.handler n with
  | .canAcceptInput m | .complete m | .completing m => some m
  | .acceptInputAsync k => (s.dataflow.call k).map AcceptCall.node
  | .idle | .running => none

/-- A function calls only the blocks that `calls` lets it call. -/
def MayCall (calls : Node → Node → Prop) (_ : HandlerSystem Node Item σ ε) :
    HandlerLabel Node Item ε → Prop
  | .canAcceptInput n m | .acceptInputAsync n m _ | .complete n m => calls n m
  | .dataflow _ | .call _ | .resume _ => True

structure CalleeInv (calls : Node → Node → Prop) (s : HandlerSystem Node Item σ ε) : Prop where
  allowed : ∀ n m, s.callee n = some m → calls n m
  made : ∀ n k, s.handler n = .acceptInputAsync k → k < s.dataflow.calls

namespace CalleeInv

variable {calls : Node → Node → Prop}

/-- The function of `n` goes to `pc`, the others stay, and the network keeps the calls. -/
theorem goto (h : CalleeInv calls s) {n : Node} {pc : HandlerPc Node}
    (hh : s'.handler = Function.update s.handler n pc)
    (hcalls : s.dataflow.calls ≤ s'.dataflow.calls)
    (hnode : ∀ k, k < s.dataflow.calls →
      (s'.dataflow.call k).map AcceptCall.node = (s.dataflow.call k).map AcceptCall.node)
    (hn : ∀ m, s'.callee n = some m → calls n m)
    (hmade : ∀ k, pc = .acceptInputAsync k → k < s'.dataflow.calls) : CalleeInv calls s' := by
  have hsame : ∀ p, p ≠ n → s'.handler p = s.handler p := fun p hp => by
    rw [hh, Function.update_of_ne hp]
  refine ⟨fun p m hm => ?_, fun p k hk => ?_⟩
  · by_cases hp : p = n
    · subst hp
      exact hn m hm
    · refine h.allowed p m ?_
      simp only [callee, hsame p hp] at hm
      simp only [callee]
      cases hpc : s.handler p <;> rw [hpc] at hm
      case acceptInputAsync k => exact (hnode k (h.made p k hpc)).symm.trans hm
      all_goals exact hm
  · by_cases hp : p = n
    · subst hp
      exact hmade k (by rw [← hk, hh, Function.update_self])
    · exact (h.made p k ((hsame p hp).symm.trans hk)).trans_le hcalls

theorem moved (h : CalleeInv calls s) {a : DataflowLabel Node Item ε}
    {t : Dataflow Node Item σ ε} (ht : s.dataflow.step N a = some t) :
    CalleeInv calls (s.moved a t) := by
  obtain ⟨hcalls, hnode⟩ := Dataflow.node_step ht
  -- where the functions are, apart from those that are through with their call
  have hpc : ∀ n, (s.moved a t).handler n = s.handler n ∨ (s.moved a t).handler n = .idle ∨
      (s.moved a t).handler n = .running := by
    intro n
    cases a with
    | process m =>
      simp only [HandlerSystem.moved]
      split
      · by_cases hn : n = m
        · subst hn
          exact .inr (.inl (Function.update_self ..))
        · exact .inl (Function.update_of_ne hn ..)
      · exact .inl rfl
    | advance m =>
      simp only [HandlerSystem.moved]
      split_ifs
      · exact .inr (.inr rfl)
      · exact .inl rfl
    | _ => exact .inl rfl
  refine ⟨fun n m hm => ?_, fun n k hk => ?_⟩
  · rcases hpc n with hn | hn | hn
    · refine h.allowed n m ?_
      simp only [callee, hn, moved_dataflow] at hm
      simp only [callee]
      cases hpc' : s.handler n <;> rw [hpc'] at hm
      case acceptInputAsync k => exact (hnode k (h.made n k hpc')).symm.trans hm
      all_goals exact hm
    all_goals
      simp only [callee, hn] at hm
      cases hm
  · rw [moved_dataflow]
    rcases hpc n with hn | hn | hn
    · exact (h.made n k (hn.symm.trans hk)).trans_le hcalls
    all_goals cases hn.symm.trans hk

theorem step (h : CalleeInv calls s) (hg : MayCall calls s a)
    (hs : s.step N a = some s') : CalleeInv calls s' := by
  cases step_cases hs with
  | dataflow hin ht => exact h.moved ht
  | call hn | canAccepted hn | accepted hn =>
    refine h.goto rfl le_rfl (fun _ _ => rfl) (fun m hm => ?_) nofun
    simp [callee, HandlerSystem.goto] at hm
  | @canAcceptInput n m hn | @complete n m hn =>
    refine h.goto rfl le_rfl (fun _ _ => rfl) (fun m' hm => ?_) nofun
    obtain rfl : m = m' := by simpa [callee, HandlerSystem.goto] using hm
    exact hg
  | @acceptInputAsync n m item t hn ht =>
    obtain ⟨hcalls, hnode⟩ := Dataflow.node_step ht
    have hlt : s.dataflow.calls < t.calls ∧
        (t.call s.dataflow.calls).map AcceptCall.node = some m := by
      unfold Dataflow.step at ht
      split_ifs at ht
      cases ht
      simp
    refine h.goto rfl hcalls hnode (fun m' hm => ?_) fun k hk => ?_
    · simp only [callee, HandlerSystem.goto, Function.update_self, hlt.2] at hm
      obtain rfl : m = m' := Option.some.inj hm
      exact hg
    · cases hk
      exact hlt.1
  | @completed n m t hn ht =>
    obtain ⟨hcalls, hnode⟩ := Dataflow.node_step ht
    refine h.goto rfl hcalls hnode (fun m' hm => ?_) fun k hk => ?_
    · refine h.allowed n m' ?_
      simp only [callee, HandlerSystem.goto, Function.update_self] at hm
      simp only [callee, hn]
      split_ifs at hm
      exact hm
    · split_ifs at hk

end CalleeInv

end HandlerSystem

section Reachable

variable {N : Network Node Item σ ε} {s : HandlerSystem Node Item σ ε}
  {G : HandlerSystem Node Item σ ε → HandlerLabel Node Item ε → Prop}

theorem reaches_dataflow {G' : Dataflow Node Item σ ε → DataflowLabel Node Item ε → Prop}
    {s' : HandlerSystem Node Item σ ε} (hG : ∀ s a b, G s a → s.base a = some b → G' s.dataflow b)
    (h : (handlerMachine N).Reaches G s s') :
    (dataflowMachine N).Reaches G' s.dataflow s'.dataflow := by
  refine h.preserves (I := fun t => (dataflowMachine N).Reaches G' s.dataflow t.dataflow)
    (fun t a t' hr hg hs => ?_) .refl
  obtain ⟨b, hb, hst⟩ | ⟨-, hst⟩ := step_dataflow hs
  · exact hr.tail (hG t a b hg hb) hst
  · rwa [hst]

/-- A run with functions that call blocks is a run of the network. -/
theorem reachable_dataflow {G' : Dataflow Node Item σ ε → DataflowLabel Node Item ε → Prop}
    (hG : ∀ s a b, G s a → s.base a = some b → G' s.dataflow b)
    (h : (handlerMachine N).Reachable G s) : (dataflowMachine N).Reachable G' s.dataflow :=
  reaches_dataflow hG h

theorem reachable_any (h : (handlerMachine N).Reachable G s) :
    (dataflowMachine N).Reachable Machine.Any s.dataflow :=
  reachable_dataflow (fun _ _ _ _ _ => trivial) h

/-- The calls of the function of a block follow one another: every call ends before the next
    one begins. -/
theorem reachable_eventsInv (h : (handlerMachine N).Reachable G s) : s.EventsInv := by
  refine h.invariant (fun n => ?_) fun _ _ _ hi _ hs => hi.step hs
  show EventsOk .idle [] _
  rw [EventsOk, if_pos rfl]
  rfl

end Reachable

end AsyncCpp.DataFlow
