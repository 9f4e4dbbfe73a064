import AsyncCpp.DataFlow.Delivery
import AsyncCpp.DataFlow.HandlerCalls
import AsyncCpp.DataFlow.NestedCalls

/-!
# The block of an actor

An actor (Actors/SimpleActor.h, Actors/ReplyActor.h) is one block without next blocks. Its
constructor starts the block, `Tell` and `Ask` call `AcceptInputAsync`, and `Complete` and the
destructor call `Complete` of the block; nobody else has the block. In the runs of this
module the calls of `AcceptInputAsync` made before the first `Complete` have returned when it
is called.

Results:
* `reachable_actorInv`: while the function of the block returns, the processing task does not
  fail, nothing is added once the block is completed, and `Completion()` ends with a result.
* `done_of_completed`: once `Completion()` is completed, the function was called on the
  messages of the calls that returned, once each, in the order of the calls, and it stays so.
-/

namespace AsyncCpp.DataFlow

/-- The call is not between its check of the state and its return. -/
def AcceptPhase.outside {ε : Type*} : AcceptPhase ε → Bool
  | .throwIfNotStarted | .returned | .threw _ => true
  | .push | .release | .releasing => false

end AsyncCpp.DataFlow

namespace AsyncCpp.Actors

open Interleaving Tasks DataFlow AsyncPrimitives

variable {Item σ ε : Type*}

/-- The calls of the user of an actor: `Start` is the one of the constructor, and the first
    `Complete` comes when every call of `AcceptInputAsync` made so far has returned. -/
def ActorCalls (s : Dataflow Unit Item σ ε) : DataflowLabel Unit Item ε → Prop
  | .start _ => (s.block ()).startedBy = []
  | .complete _ => (s.block ()).state ≠ .created ∧
      ((s.block ()).completedBy = [] → ∀ k c, s.call k = some c → c.phase = .returned)
  | .setFaulted _ _ => False
  | .acceptInputAsync _ _ => (s.block ()).state ≠ .created
  | .runCall _ | .advance _ | .process _ | .runFaultThread _ => True

/-- A run in which the user keeps to `ActorCalls` and no `Release()` finds its semaphore full. -/
def ActorUse (s : Dataflow Unit Item σ ε) (a : DataflowLabel Unit Item ε) : Prop :=
  ActorCalls s a ∧ Roomy s a

/-! ## The block -/

/-- The block of an actor whose function returns: it is started once, by the constructor; a
    call of `Complete` closes it; `Completion()` is completed, with a result, when the block
    is stopped. -/
structure ActorBlock (b : Block Unit Item σ ε) : Prop where
  started : b.startedBy = [] ∧ b.processingTask = .initial ∨ b.startedBy = [.user]
  closed : b.completedBy ≠ [] → b.state.isClosed
  calm : ∀ a, b.stateMutex = some a → a.caller = .user ∧ a.section_.Calm
  pending : b.state ≠ .stopped → b.completedTask = {}
  stopped : b.state = .stopped → b.completedTask = .ended (.value ())

namespace ActorBlock

variable {N : Network Unit Item σ ε} {n : Unit} {b b' : Block Unit Item σ ε}

/-- A block that is past `Start` was started by the constructor. -/
theorem startedBy_eq (h : ActorBlock b) (ht : TaskInv b) (hst : b.state ≠ .created) :
    b.startedBy = [.user] := by
  rcases h.started with ⟨-, hp⟩ | hs
  · exact absurd (ht.initial hp).1 hst
  · exact hs

theorem start (h : ActorBlock b) (ht : TaskInv b) (hfirst : b.startedBy = []) {r : Reply Unit ε}
    (hs : b.start .user = some (b', r)) : ActorBlock b' ∧ r = .inside := by
  have hp : b.processingTask = .initial := by
    rcases h.started with ⟨-, hp⟩ | hs
    · exact hp
    · rw [hfirst] at hs
      cases hs
  obtain ⟨hst, hm⟩ := ht.initial hp
  unfold Block.start at hs
  split at hs
  · cases hs
  · simp only at hs
    split at hs
    · rename_i hst'
      cases hst.symm.trans hst'
    · cases hs
      refine ⟨⟨.inr ?_, h.closed, ?_, h.pending, h.stopped⟩, rfl⟩
      · simp [hfirst]
      · rintro a ha
        cases ha
        exact ⟨rfl, trivial⟩
    · rename_i hne
      exact absurd hp hne
    · rename_i hne _
      exact absurd hst hne

/-- A call of `Complete` closes the block, or finds it closed. -/
theorem completeCommon (h : ActorBlock b) (ht : TaskInv b) (hsh : ShapeInv b)
    (hst : b.state ≠ .created) {r : Reply Unit ε}
    (hs : b.completeCommon .user none = some (b', r)) :
    ActorBlock b' ∧ b'.state.isClosed ∧ (r = .inside ∨ r = .returned .user) := by
  have hcount : ¬ 0 < b.startCallsCount - 1 := by
    have hc := hsh.count
    rw [h.startedBy_eq ht hst, List.length_singleton] at hc
    omega
  unfold Block.completeCommon at hs
  split at hs
  · cases hs
  · rename_i hm
    simp only [hcount, false_and, if_false] at hs
    split at hs
    · exact absurd ‹_› hst
    · rename_i hstop
      cases hs
      have hcl : b.state.isClosed := by
        rw [hstop]
        rfl
      exact ⟨⟨h.started, fun _ => hcl, h.calm, h.pending, h.stopped⟩, hcl, .inr rfl⟩
    · rename_i hns
      cases hs
      refine ⟨⟨h.started, fun _ => rfl, ?_, fun _ => h.pending hns, nofun⟩, rfl, .inl rfl⟩
      rintro a ha
      cases ha
      exact ⟨rfl, rfl⟩

/-- The thread that holds `_stateMutex` goes on: no next block is called, and the call goes
    back to the user without an exception. -/
theorem advance (h : ActorBlock b) (hsh : ShapeInv b) (hnext : NextInv N n b)
    (hleaf : N.outputNodes n = []) (hf : b.processingTask.hasFailed = false)
    {r : NextCall Unit ε} (hs : b.advance = some (b', r)) :
    ActorBlock b' ∧ (b'.state.isClosed ↔ b.state.isClosed) ∧
      (r = .reply .inside ∨ r = .reply (.returned .user)) := by
  have hnil : ∀ xs : List Unit, xs ⊆ N.outputNodes n → ∀ c cs, xs ≠ c :: cs := by
    rintro xs hsub c cs rfl
    rw [hleaf] at hsub
    cases hsub List.mem_cons_self
  cases Block.advance_cases hs with
  | @opened caller hm hto =>
    have hst := hsh.section_ _ hm
    obtain ⟨rfl, -⟩ := h.calm _ hm
    have hcl : ¬ b.state.isClosed := by
      rw [hst]
      nofun
    exact ⟨⟨h.started, fun hc => absurd (h.closed hc) hcl, nofun,
      fun _ => h.pending (by rw [hst]; nofun), nofun⟩, ⟨nofun, fun hc => absurd hc hcl⟩, .inr rfl⟩
  | startNext hm hto => exact absurd hto (hnil _ hnext.toStart _ _)
  | completeNext hm hto => exact absurd hto (hnil _ hnext.toComplete _ _)
  | cancel hm hq | canceled hm =>
    obtain ⟨hcaller, hcalm⟩ := h.calm _ hm
    refine ⟨⟨h.started, h.closed, fun a ha => ?_, h.pending, h.stopped⟩, Iff.rfl, .inl rfl⟩
    cases ha
    exact ⟨hcaller, hcalm⟩
  | runCancel hm hq =>
    exact ⟨⟨h.started, h.closed, h.calm, h.pending, h.stopped⟩, Iff.rfl, .inl rfl⟩
  | @waited caller e r hm hr =>
    obtain ⟨rfl, rfl⟩ := h.calm _ hm
    have hst := hsh.section_ _ hm
    cases r with
    | error ex =>
      -- the processing task has not failed
      cases hp : b.processingTask <;> rw [hp] at hr hf <;> cases hr
      cases hf
    | ok u =>
      have hpending := h.pending (by rw [hst]; nofun)
      refine ⟨⟨h.started, fun _ => rfl, fun a ha => ?_, fun hne => absurd rfl hne, fun _ => ?_⟩,
        ⟨fun _ => by rw [hst]; rfl, fun _ => rfl⟩, .inl rfl⟩
      · cases ha
        exact ⟨rfl, rfl, rfl⟩
      · show b.completedTask.exec (.trySetResult ()) = _
        rw [hpending]
        rfl
  | finished hm hto =>
    obtain ⟨rfl, -⟩ := h.calm _ hm
    exact ⟨⟨h.started, h.closed, nofun, h.pending, h.stopped⟩, Iff.rfl, .inr rfl⟩
  | rethrown hm hto => cases (h.calm _ hm).2.2
  | throwing hm => cases (h.calm _ hm).2

theorem process (h : ActorBlock b) (hs : b.process N n = some b') : ActorBlock b' := by
  have hstarted : b.startedBy = [.user] := by
    rcases h.started with ⟨-, hp⟩ | hstarted
    · simp [Block.process, hp] at hs
    · exact hstarted
  cases Block.process_cases hs <;>
    exact ⟨.inr hstarted, h.closed, h.calm, h.pending, h.stopped⟩

theorem accept (h : ActorBlock b) {x : QueueItem Unit Item} {phase phase' : AcceptPhase ε}
    (hs : b.acceptInputAsync x phase = some (b', phase')) : ActorBlock b' := by
  rw [Block.acceptInputAsync_eq hs]
  exact ⟨h.started, h.closed, h.calm, h.pending, h.stopped⟩

end ActorBlock

/-! ## The actor -/

/-- No exception leaves the block, and no call of `AcceptInputAsync` is inside a closed one. -/
structure ActorInv (s : Dataflow Unit Item σ ε) : Prop where
  running : s.terminated = false
  block : ActorBlock (s.block ())
  ended : (s.block ()).state.isClosed → ∀ k c, s.call k = some c → c.phase.outside

/-- What is known of the block of an actor anyway. -/
structure BlockFacts (N : Network Unit Item σ ε) (b : Block Unit Item σ ε) : Prop where
  task : TaskInv b
  shape : ShapeInv b
  next : NextInv N () b
  work : WorkInv N () b

theorem reachable_blockFacts {N : Network Unit Item σ ε}
    {G : Dataflow Unit Item σ ε → DataflowLabel Unit Item ε → Prop} {s : Dataflow Unit Item σ ε}
    (h : (dataflowMachine N).Reachable G s) : BlockFacts N (s.block ()) :=
  ⟨reachable_taskInv h (), reachable_shapeInv h (), reachable_nextInv h (), reachable_workInv h ()⟩

/-- The function returns when it is called next. -/
def Returning (N : Network Unit Item σ ε) (b : Block Unit Item σ ε) : Prop :=
  ∀ x rest, b.processingTask = .invoke x rest →
    ∃ y st, N.transformFunc () b.nodeState x.item = (.ok y, st)

section Step

variable {N : Network Unit Item σ ε} {s s' : Dataflow Unit Item σ ε}

/-- The processing task of a block without next blocks touches no block but its own. -/
theorem process_block (hw : WorkInv N () (s.block ())) (hleaf : N.outputNodes () = [])
    (hs : s.process N () = some s') :
    ∃ b, (s.block ()).process N () = some b ∧ s' = s.set () b := by
  have htargets := hw.targets
  rw [hleaf, List.sublist_nil] at htargets
  rcases Dataflow.process_cases hs with ⟨y, c, ask, offer, rest, hp, -, -⟩ |
    ⟨y, phase, c, offer, rest, bc, phase', hp, -, -⟩ | hb
  · simp [hp, Processing.targets] at htargets
  · simp [hp, Processing.targets] at htargets
  · exact hb

/-- Only the calls of the user add to the queue. -/
theorem accepting_cases {c : Unit} {x : QueueItem Unit Item} {phase : AcceptPhase ε}
    {a : DataflowLabel Unit Item ε} (hw : WorkInv N () (s.block ()))
    (hleaf : N.outputNodes () = []) (hacc : s.accepting a = some (c, x, phase)) :
    ∃ k call, a = .runCall k ∧ s.call k = some call ∧ x = ⟨.user k, call.item⟩ ∧
      call.phase = phase := by
  cases a with
  | runCall k =>
    simp only [Dataflow.accepting, Option.map_eq_some_iff, Prod.mk.injEq] at hacc
    obtain ⟨call, hcall, -, rfl, hphase⟩ := hacc
    exact ⟨k, call, rfl, hcall, rfl, hphase⟩
  | process n =>
    have htargets := hw.targets
    rw [hleaf, List.sublist_nil] at htargets
    simp only [Dataflow.accepting] at hacc
    split at hacc
    case h_1 hp =>
      rw [show (s.block ()).processingTask = _ from hp] at htargets
      cases htargets
    case h_2 => cases hacc
  | _ => cases hacc

/-- A call of `AcceptInputAsync` enters the queue only while the block is started. -/
theorem outside_of_accept {b b' : Block Unit Item σ ε} {x : QueueItem Unit Item}
    {phase phase' : AcceptPhase ε} (hs : b.acceptInputAsync x phase = some (b', phase'))
    (hcl : b.state.isClosed) (hout : phase.outside) : phase'.outside := by
  cases Block.acceptInputAsync_cases hs with
  | started hst =>
    rw [hst] at hcl
    cases hcl
  | notStarted => rfl
  | push | full | release | releasing => cases hout

namespace ActorInv

/-- A call of the user goes on. -/
theorem runCall (h : ActorInv s) {k : ℕ} (hs : s.runCall k = some s') : ActorInv s' := by
  obtain ⟨c, b, phase, hc, hb, rfl⟩ := Dataflow.runCall_cases hs
  have hstate : b.state = (s.block ()).state := by rw [Block.acceptInputAsync_eq hb]
  refine ⟨h.running, h.block.accept hb, fun hcl j d hd => ?_⟩
  have hcl' : (s.block ()).state.isClosed := by
    rw [← hstate]
    exact hcl
  by_cases hj : j = k
  · subst hj
    simp only [Function.update_self, Option.some.injEq] at hd
    subst hd
    exact outside_of_accept hb hcl' (h.ended hcl' j c hc)
  · simp only [Function.update_of_ne hj] at hd
    exact h.ended hcl' j d hd

/-- The thread that holds `_stateMutex` goes on. -/
theorem advance (h : ActorInv s) (hf : BlockFacts N (s.block ())) (hh : HealthyInv (s.block ()))
    (hleaf : N.outputNodes () = []) {n : Unit} (hs : s.advance n = some s') : ActorInv s' := by
  unfold Dataflow.advance at hs
  split at hs
  · cases hs
  · rename_i b r hb
    obtain ⟨hblock, hcl, hr⟩ := h.block.advance hf.shape hf.next hleaf hh.notFailed hb
    cases hs
    have hinv : ActorInv (s.set () b) :=
      ⟨h.running, hblock, fun hcl' => h.ended (hcl.mp hcl')⟩
    rcases hr with hr | hr <;> cases hr <;> exact hinv
  all_goals
    rename_i hb
    obtain ⟨-, -, hr⟩ := h.block.advance hf.shape hf.next hleaf hh.notFailed hb
    rcases hr with hr | hr <;> cases hr

theorem step (h : ActorInv s) (hf : BlockFacts N (s.block ())) (hh : HealthyInv (s.block ()))
    (hleaf : N.outputNodes () = []) {a : DataflowLabel Unit Item ε} (hg : ActorCalls s a)
    (hs : s.step N a = some s') : ActorInv s' := by
  unfold Dataflow.step at hs
  split_ifs at hs
  cases a with
  | start n =>
    obtain ⟨⟨b, r⟩, hb, rfl⟩ := Option.map_eq_some_iff.mp hs
    obtain ⟨hblock, rfl⟩ := h.block.start hf.task hg hb
    have hst : b.state = (s.block ()).state := by rw [(Block.start_eq hb).1]
    exact ⟨h.running, hblock, fun hcl => h.ended (hst ▸ hcl)⟩
  | complete n =>
    obtain ⟨⟨b, r⟩, hb, rfl⟩ := Option.map_eq_some_iff.mp hs
    obtain ⟨hblock, -, hr⟩ := h.block.completeCommon hf.task hf.shape hg.1 hb
    have hinv : ActorInv (s.set () b) := by
      refine ⟨h.running, hblock, fun _ k c hk => ?_⟩
      by_cases hfirst : (s.block ()).completedBy = []
      · rw [hg.2 hfirst k c hk]
        rfl
      · exact h.ended (h.block.closed hfirst) k c hk
    rcases hr with rfl | rfl <;> exact hinv
  | setFaulted n e => exact hg.elim
  | acceptInputAsync n item =>
    cases hs
    refine ⟨h.running, h.block, fun hcl k c hk => ?_⟩
    by_cases hkn : k = s.calls
    · subst hkn
      simp only [Function.update_self, Option.some.injEq] at hk
      subst hk
      rfl
    · simp only [Function.update_of_ne hkn] at hk
      exact h.ended hcl k c hk
  | runCall k => exact h.runCall hs
  | advance n => exact h.advance hf hh hleaf hs
  | process n =>
    obtain ⟨b, hb, rfl⟩ := process_block hf.work hleaf hs
    have hst : b.state = (s.block ()).state := congrArg Prod.fst (Block.process_calls hb)
    exact ⟨h.running, h.block.process hb, fun hcl => h.ended (hst ▸ hcl)⟩
  | runFaultThread n =>
    have hnone : (s.block n).faultThread = none := hh.faultThread
    simp only [hnone] at hs
    cases hs

/-- Nothing is added to the queue of a closed block. -/
theorem pushBeforeDrain (h : ActorInv s) (hf : BlockFacts N (s.block ()))
    (hleaf : N.outputNodes () = []) (a : DataflowLabel Unit Item ε) : PushBeforeDrain s a := by
  intro c x hacc
  by_contra hclosed
  have hcl := hf.shape.draining (.inr (by simpa using hclosed))
  obtain ⟨k, call, -, hcall, -, hphase⟩ := accepting_cases hf.work hleaf hacc
  have hout := h.ended hcl k call hcall
  rw [hphase] at hout
  cases hout

end ActorInv

/-- A step in which the function returns, if it is called, does not let the processing task
    fail. -/
theorem healthy_step (hh : HealthyInv (s.block ())) (hf : BlockFacts N (s.block ()))
    (hleaf : N.outputNodes () = []) (hok : Returning N (s.block ()))
    {a : DataflowLabel Unit Item ε} (hroom : Roomy s a) (hs : s.step N a = some s') :
    HealthyInv (s'.block ()) := by
  by_cases hproc : ∃ n, a = .process n
  · obtain ⟨n, rfl⟩ := hproc
    unfold Dataflow.step at hs
    split_ifs at hs
    obtain ⟨b, hb, rfl⟩ := process_block hf.work hleaf hs
    exact hh.process hok hb
  · refine HealthyInv.closed_calls.step (fun _ => hh) (fun n hn => hproc ⟨n, hn⟩) ?_ hs ()
    intro c x phase b' phase' hacc hb
    refine hh.accept (fun hr => ?_) hb
    subst hr
    exact hroom c x hacc

end Step

/-- The invariant rule for an actor: while its function returns in the states reached, the
    processing task does not fail, and nobody adds an item to the queue after it was emptied
    for the last time. -/
theorem reachable_actorInv {N : Network Unit Item σ ε} (hleaf : N.outputNodes () = [])
    {G : Dataflow Unit Item σ ε → DataflowLabel Unit Item ε → Prop}
    (hG : ∀ s a, G s a → ActorUse s a)
    (hok : ∀ s, (dataflowMachine N).Reachable (fun s a => G s a ∧ PushBeforeDrain s a) s →
      HealthyInv (s.block ()) → Returning N (s.block ()))
    {s : Dataflow Unit Item σ ε} (h : (dataflowMachine N).Reachable G s) :
    (dataflowMachine N).Reachable (fun s a => G s a ∧ PushBeforeDrain s a) s ∧
      HealthyInv (s.block ()) ∧ ActorInv s := by
  unfold Machine.Reachable at h
  induction h with
  | refl =>
    refine ⟨.init, ⟨rfl, rfl, fun _ => reachable_collectionInv .init⟩, rfl, ?_, fun _ => nofun⟩
    exact ⟨.inl ⟨rfl, rfl⟩, fun hc => absurd rfl hc, nofun, fun _ => rfl, nofun⟩
  | tail hr hg hs ih =>
    obtain ⟨hreach, hh, hinv⟩ := ih
    have hf := reachable_blockFacts hr
    exact ⟨hreach.step ⟨hg, hinv.pushBeforeDrain hf hleaf _⟩ hs,
      healthy_step hh hf hleaf (hok _ hreach hh) (hG _ _ hg).2 hs,
      hinv.step hf hh hleaf (hG _ _ hg).1 hs⟩

/-! ## What an actor has run -/

section Ran

variable {N : Network Unit Item σ ε} {s s' : Dataflow Unit Item σ ε}
  {G : Dataflow Unit Item σ ε → DataflowLabel Unit Item ε → Prop}

/-- A call throws only where the block is not started. -/
theorem reachable_threw (hG : ∀ s a, G s a → Roomy s a) (h : (dataflowMachine N).Reachable G s) :
    ∀ k c, s.call k = some c → ∀ e, c.phase = .threw e → e = notRunning := by
  refine h.invariant (I := fun s => ∀ k c, s.call k = some c → ∀ e, c.phase = .threw e →
    e = notRunning) nofun fun s a s' hi hg hs => ?_
  refine Dataflow.forall_call_step hs hi (fun _ _ _ => nofun) ?_
  rintro k c b phase rfl hc hb e rfl
  refine Block.acceptInputAsync_threw (fun hr => ?_) hb
  exact hG _ _ hg () _ ((Dataflow.accepting_runCall hc).trans (by rw [hr]))

/-- Every item is one of a call of the user. -/
theorem reachable_origin (hleaf : N.outputNodes () = []) (h : (dataflowMachine N).Reachable G s) :
    ∀ x ∈ (s.block ()).inputItems.added, ∃ k, x.origin = .user k := by
  refine h.invariant_with (Q := fun s => WorkInv N () (s.block ()))
    (I := fun s => ∀ x ∈ (s.block ()).inputItems.added, ∃ k, x.origin = .user k)
    (fun s hr => reachable_workInv hr ()) (fun _ hx => absurd hx List.not_mem_nil) ?_
  intro s a s' hw hi _ hs x hx
  rw [Dataflow.added_step hs, List.mem_append] at hx
  rcases hx with hx | hx
  · exact hi x hx
  · obtain ⟨k, call, -, -, rfl, -⟩ := accepting_cases hw hleaf (Dataflow.mem_pushed hx)
    exact ⟨k, rfl⟩

namespace ActorInv

theorem completedTask_eq (h : ActorInv s) (hc : (s.block ()).completedTask.state.isCompleted) :
    (s.block ()).completedTask = .ended (.value ()) ∧ (s.block ()).state = .stopped := by
  by_cases hst : (s.block ()).state = .stopped
  · exact ⟨h.block.stopped hst, hst⟩
  · rw [h.block.pending hst] at hc
    cases hc

/-- When a call of `Complete` was made and the mutex is free again, `Completion()` is
    completed. -/
theorem completed_of_free (h : ActorInv s) (hsh : ShapeInv (s.block ()))
    (hc : (s.block ()).completedBy ≠ []) (hm : (s.block ()).stateMutex = none) :
    (s.block ()).completedTask = .ended (.value ()) := by
  have hcl := h.block.closed hc
  have hns : (s.block ()).state ≠ .stopping := fun hst => hsh.stopping hst hm
  refine h.block.stopped ?_
  cases hst : (s.block ()).state <;> rw [hst] at hcl hns <;> first | rfl | cases hcl
  exact absurd rfl hns

end ActorInv

/-- The function was called on the item of every call that returned, once each, and on nothing
    else. -/
structure Served (s : Dataflow Unit Item σ ε) : Prop where
  once : ∀ k c, s.call k = some c → c.phase = .returned →
    (s.block ()).ran.filter (fun x => x.origin = .user k) = [⟨.user k, c.item⟩]
  only : ∀ x ∈ (s.block ()).ran, ∃ k c, s.call k = some c ∧ c.phase = .returned ∧
    x = ⟨.user k, c.item⟩

/-- Every item is that of a call that has added it and has not thrown. -/
theorem exists_call_of_added (hleaf : N.outputNodes () = []) (hG : ∀ s a, G s a → Roomy s a)
    (h : (dataflowMachine N).Reachable G s) {x : QueueItem Unit Item}
    (hx : x ∈ (s.block ()).inputItems.added) :
    ∃ k c, s.call k = some c ∧ c.phase.after ∧ x = ⟨.user k, c.item⟩ := by
  obtain ⟨k, hk⟩ := reachable_origin hleaf h x hx
  obtain ⟨c, hc, hbefore, hitem⟩ := (reachable_callInv h).exists_call hx hk
  have hafter : c.phase.after := by
    cases hp : c.phase with
    | threw e =>
      rw [hp, reachable_threw hG h k c hc e hp] at hbefore
      cases hbefore
    | throwIfNotStarted | push =>
      rw [hp] at hbefore
      cases hbefore
    | release | releasing | returned => rfl
  exact ⟨k, c, hc, hafter, hitem hafter rfl⟩

/-- Where no call is inside the block, the items are those of the calls that returned. -/
theorem mem_added_iff (hleaf : N.outputNodes () = []) (hG : ∀ s a, G s a → Roomy s a)
    (h : (dataflowMachine N).Reachable G s) (hout : ∀ k c, s.call k = some c → c.phase.outside)
    (x : QueueItem Unit Item) : x ∈ (s.block ()).inputItems.added ↔
      ∃ k c, s.call k = some c ∧ c.phase = .returned ∧ x = ⟨.user k, c.item⟩ := by
  constructor
  · intro hx
    obtain ⟨k, c, hc, hafter, rfl⟩ := exists_call_of_added hleaf hG h hx
    refine ⟨k, c, hc, ?_, rfl⟩
    have hphase := hout k c hc
    cases hp : c.phase with
    | returned => rfl
    | throwIfNotStarted | push | threw e =>
      rw [hp] at hafter
      cases hafter
    | release | releasing =>
      rw [hp] at hphase
      cases hphase
  · rintro ⟨k, c, hc, hret, rfl⟩
    have hmem : (⟨.user k, c.item⟩ : QueueItem Unit Item) ∈ s.fromCall k () := by
      rw [(reachable_callInv h).after k c hc (by rw [hret]; rfl)]
      exact List.mem_singleton.mpr rfl
    exact (List.mem_filter.mp hmem).1

/-- A block that has run what was added has served the calls. -/
theorem served_of_ran (hleaf : N.outputNodes () = []) (hG : ∀ s a, G s a → Roomy s a)
    (h : (dataflowMachine N).Reachable G s)
    (hran : (s.block ()).ran = (s.block ()).inputItems.added)
    (hout : ∀ k c, s.call k = some c → c.phase.outside) : Served s := by
  refine ⟨fun k c hk hret => ?_, fun x hx => ?_⟩
  · rw [hran]
    exact (reachable_callInv h).after k c hk (by rw [hret]; rfl)
  · rw [hran] at hx
    exact (mem_added_iff hleaf hG h hout x).mp hx

/-! ## After the end -/

/-- What an actor has come to. -/
def ending (b : Block Unit Item σ ε) :
    Processing Unit Item ε × List (QueueItem Unit Item) × σ × TaskSharedState Unit ε :=
  (b.processingTask, b.ran, b.nodeState, b.completedTask)

theorem ending_calls (ran : List (QueueItem Unit Item)) (st : σ) :
    ClosedCalls fun (_ : Unit) (b : Block Unit Item σ ε) =>
      ending b = (.finished (.ok ()), ran, st, .ended (.value ())) where
  start h hs := by
    obtain ⟨heq, hp | ⟨hp, -⟩⟩ := Block.start_eq hs
    · rw [heq, hp]
      exact h
    · rw [ending, hp] at h
      cases h
  completeCommon h hs := by rw [Block.completeCommon_eq hs]; exact h
  advance {n b b' r} h hs := by
    have hdone : b.completedTask = .ended (.value ()) := congrArg (fun x => x.2.2.2) h
    cases Block.advance_cases hs with
    | @waited caller e r hm hr =>
      cases r with
      | error ex => exact h
      | ok u =>
        -- the setter of a completed task does nothing
        have hexec : (b.waited caller e (.ok u)).completedTask = b.completedTask := by
          simp only [Block.waited, hdone]
          cases e <;> rfl
        rw [← h, ending, hexec]
        rfl
    | _ => exact h
  resumed h := h
  throwing h _ := h
  faultThread h := h

/-- An actor whose processing task has ended and whose `Completion()` is completed keeps what
    it has come to, whatever is called. -/
theorem ending_reaches (hleaf : N.outputNodes () = []) (h₀ : (dataflowMachine N).Reachable G s)
    (h : (dataflowMachine N).Reaches G s s')
    (hp : (s.block ()).processingTask = .finished (.ok ()))
    (hc : (s.block ()).completedTask = .ended (.value ())) :
    ending (s'.block ()) = ending (s.block ()) := by
  have hend : ending (s.block ()) =
      (.finished (.ok ()), (s.block ()).ran, (s.block ()).nodeState, .ended (.value ())) := by
    rw [ending, hp, hc]
  rw [hend]
  refine (h.preserves (I := fun t => (dataflowMachine N).Reachable G t ∧ ending (t.block ()) =
    (.finished (.ok ()), (s.block ()).ran, (s.block ()).nodeState, .ended (.value ())))
    ?_ ⟨h₀, hend⟩).2
  rintro t a t' ⟨hr, hi⟩ hg hs
  refine ⟨hr.step hg hs, ?_⟩
  by_cases hproc : ∃ n, a = .process n
  · obtain ⟨n, rfl⟩ := hproc
    have hs' : t.step N (.process n) = some t' := hs
    unfold Dataflow.step at hs'
    split_ifs at hs'
    obtain ⟨b, hb, -⟩ := process_block (reachable_workInv hr ()) hleaf hs'
    have hfin : (t.block ()).processingTask = .finished (.ok ()) := congrArg Prod.fst hi
    simp [Block.process, hfin] at hb
  · refine (ending_calls _ _).step (fun _ => hi) (fun n hn => hproc ⟨n, hn⟩) ?_ hs ()
    intro c x phase b' phase' _ hb
    rw [Block.acceptInputAsync_eq hb]
    exact hi

end Ran

/-! ## Runs with functions that call blocks -/

/-- The user and the functions keep to the guard `G` of the network. -/
def Under (G : Dataflow Unit Item σ ε → DataflowLabel Unit Item ε → Prop)
    (s : HandlerSystem Unit Item σ ε) (a : HandlerLabel Unit Item ε) : Prop :=
  ∀ b, s.base a = some b → G s.dataflow b

theorem Under.mono {G G' : Dataflow Unit Item σ ε → DataflowLabel Unit Item ε → Prop}
    (hG : ∀ s a, G s a → G' s a) {s : HandlerSystem Unit Item σ ε} {a : HandlerLabel Unit Item ε}
    (h : Under G s a) : Under G' s a :=
  fun b hb => hG _ _ (h b hb)

/-- `ActorUse`, computed. -/
def inUse (s : Dataflow Unit Item σ ε) (a : DataflowLabel Unit Item ε) : Bool :=
  s.hasRoom a &&
    match a with
    | .start _ => (s.block ()).startedBy.isEmpty
    | .complete _ =>
      (s.block ()).state ≠ .created &&
        (!(s.block ()).completedBy.isEmpty ||
          (List.range s.calls).all fun k =>
            match s.call k with
            | some ⟨_, _, .returned⟩ => true
            | _ => false)
    | .setFaulted _ _ => false
    | .acceptInputAsync _ _ => (s.block ()).state ≠ .created
    | .runCall _ | .advance _ | .process _ | .runFaultThread _ => true

theorem actorUse_of_inUse {s : Dataflow Unit Item σ ε} {a : DataflowLabel Unit Item ε}
    (hcalls : s.CallInv) (h : inUse s a = true) : ActorUse s a := by
  simp only [inUse, Bool.and_eq_true] at h
  refine ⟨?_, .of_hasRoom h.1⟩
  have huse := h.2
  cases a with
  | start n => simpa [ActorCalls] using huse
  | complete n =>
    simp only [Bool.and_eq_true, Bool.or_eq_true, decide_eq_true_eq] at huse
    refine ⟨huse.1, fun hfirst k c hk => ?_⟩
    have hall := huse.2.resolve_left (by simp [hfirst])
    have hret := List.all_eq_true.mp hall k (List.mem_range.mpr (hcalls.lt_calls hk))
    rw [hk] at hret
    obtain ⟨node, item, phase⟩ := c
    cases phase <;> first | rfl | cases hret
  | setFaulted n e => cases huse
  | acceptInputAsync n item => simpa [ActorCalls] using huse
  | runCall | advance | process | runFaultThread => trivial

/-- `Under G`, computed. -/
def under (g : Dataflow Unit Item σ ε → DataflowLabel Unit Item ε → Bool)
    (s : HandlerSystem Unit Item σ ε) (a : HandlerLabel Unit Item ε) : Bool :=
  match s.base a with
  | none => true
  | some b => g s.dataflow b

/-- A run of labels that meet a guard that can be computed. -/
theorem reaches_of_runWhile {N : Network Unit Item σ ε}
    {G : Dataflow Unit Item σ ε → DataflowLabel Unit Item ε → Prop}
    {g : Dataflow Unit Item σ ε → DataflowLabel Unit Item ε → Bool}
    (hg : ∀ s a, s.CallInv → g s a = true → G s a) {s t : HandlerSystem Unit Item σ ε}
    (h₀ : (handlerMachine N).Reachable (Under G) s) (as : List (HandlerLabel Unit Item ε))
    (h : (handlerMachine N).runWhile (under g) s as = some t) :
    (handlerMachine N).Reaches (Under G) s t := by
  refine (Machine.Reaches.of_runWhile (fun _ _ ha => ha) as h).preserves
    (I := fun t => (handlerMachine N).Reaches (Under G) s t) (fun t a t' ht ha hst => ?_) .refl
  refine ht.tail (fun b hb => hg _ _ (reachable_callInv (reachable_any (h₀.trans ht))) ?_) hst
  simpa [under, hb] using ha

/-- While the function is not in a call, all its calls have ended. -/
theorem events_eq {s : HandlerSystem Unit Item σ ε} (h : s.EventsInv)
    (hp : (s.dataflow.block ()).processingTask.invoking = none) :
    s.events () = callEvents (s.dataflow.block ()).ran := by
  have hev := h ()
  unfold HandlerSystem.EventsOk at hev
  split_ifs at hev
  · exact hev
  · obtain ⟨x, hx, -⟩ := hev
    cases hp.symm.trans hx

/-- An actor whose `Completion()` is completed: it has a result, the function was called on
    the messages of the calls that returned, once each, in the order of the calls, and a call
    of the function ended before the next one began. The run came through `s₀`. -/
structure Done (s₀ s : HandlerSystem Unit Item σ ε) : Prop where
  result : (s.dataflow.block ()).completedTask = .ended (.value ())
  served : Served s.dataflow
  order : AcceptanceOrder s₀.dataflow s.dataflow ()
  apart : s.events () = callEvents (s.dataflow.block ()).ran

/-- What the user can see of an actor, and the calls of its function. -/
def outcome (s : HandlerSystem Unit Item σ ε) :
    List (QueueItem Unit Item) × σ × TaskSharedState Unit ε × List (HandlerEvent Unit Item) :=
  ((s.dataflow.block ()).ran, (s.dataflow.block ()).nodeState,
    (s.dataflow.block ()).completedTask, s.events ())

section Handler

variable {N : Network Unit Item σ ε} {s₀ s : HandlerSystem Unit Item σ ε}
  {G : Dataflow Unit Item σ ε → DataflowLabel Unit Item ε → Prop}

theorem reaches_under (h : (handlerMachine N).Reaches (Under G) s₀ s) :
    (dataflowMachine N).Reaches G s₀.dataflow s.dataflow :=
  reaches_dataflow (fun _ _ b hg hb => hg b hb) h

/-- An actor that was completed is done, and stays as it is, whatever is called. -/
theorem done_of_completed (hleaf : N.outputNodes () = []) (hG : ∀ s a, G s a → ActorUse s a)
    (hok : ∀ s, (dataflowMachine N).Reachable (fun s a => G s a ∧ PushBeforeDrain s a) s →
      HealthyInv (s.block ()) → Returning N (s.block ()))
    (h₀ : (handlerMachine N).Reachable (Under G) s₀)
    (h : (handlerMachine N).Reaches (Under G) s₀ s)
    (hc : (s.dataflow.block ()).completedTask.state.isCompleted) :
    Done s₀ s ∧
      ∀ s', (handlerMachine N).Reaches (Under G) s s' → outcome s' = outcome s := by
  have hs : (handlerMachine N).Reachable (Under G) s := h₀.trans h
  have hr : (dataflowMachine N).Reachable G s.dataflow := reaches_under hs
  obtain ⟨hdrain, -, hinv⟩ := reachable_actorInv hleaf hG hok hr
  obtain ⟨hvalue, hstopped⟩ := hinv.completedTask_eq hc
  have hran := ran_eq_added (hdrain.mono fun _ _ hg => hg.2) hc
  have hfin : (s.dataflow.block ()).processingTask = .finished (.ok ()) :=
    (reachable_taskInv hr ()).completed fun hnil => by
      rw [hnil] at hc
      cases hc
  have hout : ∀ k c, s.dataflow.call k = some c → c.phase.outside :=
    hinv.ended (by rw [hstopped]; rfl)
  refine ⟨⟨hvalue, served_of_ran hleaf (fun s a hg => (hG s a hg).2) hr hran hout, ?_,
    events_eq (reachable_eventsInv hs) (by rw [hfin]; rfl)⟩, fun s' hs' => ?_⟩
  · intro k c j d hk hkret hj hjs hjret
    rw [hran]
    exact sublist_added (reaches_under h₀) (reaches_under h) hk hkret hj hjs hjret ⟨rfl, rfl⟩
  · have hending := ending_reaches hleaf hr (reaches_under hs') hfin hvalue
    simp only [ending, Prod.mk.injEq] at hending
    obtain ⟨hp', hran', hstate', hvalue'⟩ := hending
    have hev := events_eq (reachable_eventsInv hs) (by rw [hfin]; rfl)
    have hev' := events_eq (reachable_eventsInv (hs.trans hs')) (by rw [hp', hfin]; rfl)
    rw [outcome, outcome, hran', hstate', hvalue', hev', hev, hran']

end Handler

end AsyncCpp.Actors
