import AsyncCpp.DataFlow.Connections
import AsyncCpp.DataFlow.Faults
import AsyncCpp.DataFlow.QueueCalls

/-!
# Networks at rest

A thread that holds a `_stateMutex` waits for the critical section of a next block, or for the
processing task of its own block, which asks and offers its items to next blocks. Where no chain
of connections is closed, these waits come to an end: the lowest block whose mutex is held can
go on.

Results:
* `Dataflow.CalledBut.step`: a block whose thread is in a call of a next block has called it.
* `RestInv.unlocked`: when nothing can go on any more and no chain of connections is closed,
  every `_stateMutex` is free.
-/

namespace AsyncCpp.DataFlow

open Interleaving Tasks AsyncPrimitives

variable {Node Item σ ε : Type*}

/-! ## A block at work -/

/-- `_startTask` is completed once the block is past `Start`, the detached thread comes from a
    processing task that has begun, and an `AcceptInputAsync` that has ended is left. -/
structure WorkingInv (b : Block Node Item σ ε) : Prop where
  startTask : b.startTask = {} ∨ b.startTask.state.isCompleted
  opened : b.state ≠ .created → b.startTask.state.isCompleted
  faultThread : b.faultThread ≠ none → b.processingTask.begun
  offering : ∀ y phase c offer rest, b.processingTask = .offering y phase (c :: offer) rest →
    phase.ended = false

namespace WorkingInv

variable {N : Network Node Item σ ε} {n : Node} {b b' : Block Node Item σ ε}

/-- Nothing the invariant speaks of changes. -/
theorem congr (h : WorkingInv b) (h1 : b'.startTask = b.startTask)
    (h2 : b'.state ≠ .created → b.state ≠ .created) (h3 : b'.faultThread = b.faultThread)
    (h4 : b'.processingTask = b.processingTask) : WorkingInv b' := by
  refine ⟨h1 ▸ h.startTask, fun hst => ?_, ?_, ?_⟩
  · rw [h1]
    exact h.opened (h2 hst)
  · rw [h3, h4]
    exact h.faultThread
  · rw [h4]
    exact h.offering

theorem start (h : WorkingInv b) {caller : Caller Node} {r : Reply Node ε}
    (hs : b.start caller = some (b', r)) : WorkingInv b' := by
  obtain ⟨heq, hp | ⟨hp, hp'⟩⟩ := Block.start_eq hs
  · exact h.congr (by rw [heq]) (by rw [heq]; exact id) (by rw [heq]) hp
  · refine ⟨by rw [heq]; exact h.startTask, by rw [heq]; exact h.opened, ?_, ?_⟩
    · intro hf
      rw [heq] at hf
      have hb := h.faultThread hf
      rw [hp] at hb
      cases hb
    · rw [hp']
      nofun

theorem completeCommon (h : WorkingInv b) {caller : Caller Node} {e : Option (Exn ε)}
    {r : Reply Node ε} (hs : b.completeCommon caller e = some (b', r)) : WorkingInv b' := by
  have heq := Block.completeCommon_eq hs
  refine h.congr (by rw [heq]) (fun hst hc => hst ?_) (by rw [heq]) (by rw [heq])
  unfold Block.completeCommon at hs
  split at hs
  · cases hs
  · simp only [hc] at hs
    split_ifs at hs <;> cases hs <;> rfl

/-- `_startTask` is completed when the loop of `Start` ends. -/
theorem startTask_completed (h : WorkingInv b) :
    (b.startTask.exec (.setResult () true)).state.isCompleted := by
  rcases h.startTask with hst | hst
  · rw [hst]
    rfl
  · cases hc : b.startTask.state <;> rw [hc] at hst <;> cases hst
    all_goals simp [TaskSharedState.exec, SetCall.apply, hc, TaskState.isCompleted]

theorem advance (h : WorkingInv b) (hsh : ShapeInv b) {r : NextCall Node ε}
    (hs : b.advance = some (b', r)) : WorkingInv b' := by
  cases Block.advance_cases hs with
  | opened hm ht =>
    exact ⟨.inr h.startTask_completed, fun _ => h.startTask_completed, h.faultThread, h.offering⟩
  | @waited caller e r hm hr =>
    have hst : b.state ≠ .created := by
      rw [hsh.section_ _ hm]
      nofun
    cases r <;> exact h.congr rfl (fun _ => hst) rfl rfl
  | _ => exact h.congr rfl id rfl rfl

/-- The processing task goes on. -/
theorem move (h : WorkingInv b) (h1 : b'.startTask = b.startTask) (h2 : b'.state = b.state)
    (h3 : b'.processingTask.begun)
    (h4 : ∀ y phase c offer rest, b'.processingTask = .offering y phase (c :: offer) rest →
      phase.ended = false) : WorkingInv b' := by
  refine ⟨h1 ▸ h.startTask, ?_, fun _ => h3, h4⟩
  rw [h1, h2]
  exact h.opened

theorem next_begun (rest : Option (List (QueueItem Node Item))) :
    (Processing.next rest : Processing Node Item ε).begun := by
  rcases rest with _ | _ | _ <;> rfl

theorem next_ne_offering (rest rest' : Option (List (QueueItem Node Item))) (y : Item)
    (phase : AcceptPhase ε) (cs : List Node) :
    (Processing.next rest : Processing Node Item ε) ≠ .offering y phase cs rest' := by
  rcases rest with _ | _ | _ <;> nofun

theorem process (h : WorkingInv b) (hs : b.process N n = some b') : WorkingInv b' := by
  cases Block.process_cases hs with
  | started hp | canceled hp | take hp | took hp | retry hp | takeFailed hp | invoked hp
  | threw hp => exact h.move rfl rfl rfl nofun
  | waiting hp | resume hp => exact h.congr rfl id rfl rfl
  | asked hp =>
    refine h.move rfl rfl rfl fun y phase c offer rest heq => ?_
    cases heq
    rfl
  | propagated hp | drained hp =>
    exact h.move rfl rfl (next_begun _) fun y phase c offer rest heq =>
      absurd heq (next_ne_offering _ _ _ _ _)
  | reported hp => exact ⟨h.startTask, h.opened, fun _ => rfl, nofun⟩

theorem closed (N : Network Node Item σ ε) :
    Closed N (fun _ _ => True)
      fun _ (b : Block Node Item σ ε) => (TaskInv b ∧ ShapeInv b) ∧ WorkingInv b where
  start {n _ _ _ _} h hs := ⟨(ShapeInv.closed N).start (n := n) h.1 hs, h.2.start hs⟩
  completeCommon {n _ _ _ _ _} h hs :=
    ⟨(ShapeInv.closed N).completeCommon (n := n) h.1 hs, h.2.completeCommon hs⟩
  advance {n _ _ _} h hs := ⟨(ShapeInv.closed N).advance (n := n) h.1 hs, h.2.advance h.1.2 hs⟩
  resumed {n _} h := ⟨(ShapeInv.closed N).resumed (n := n) h.1, h.2.congr rfl id rfl rfl⟩
  throwing {n _ _ _ _} h hm :=
    ⟨(ShapeInv.closed N).throwing (n := n) h.1 hm, h.2.congr rfl id rfl rfl⟩
  process h hs := ⟨(ShapeInv.closed N).process h.1 hs, h.2.process hs⟩
  asked {n b y c ask offer rest offer'} h hp ho :=
    ⟨(ShapeInv.closed N).asked (n := n) h.1 hp ho, h.2.move rfl rfl rfl nofun⟩
  offered {n b y phase c offer rest phase'} h hp := by
    refine ⟨(ShapeInv.closed N).offered (n := n) h.1 hp, ?_⟩
    cases phase' with
    | threw e =>
      exact h.2.move rfl rfl (next_begun _) fun y phase c offer rest heq =>
        absurd heq (next_ne_offering _ _ _ _ _)
    | _ =>
      refine h.2.move rfl rfl rfl fun y phase c offer rest heq => ?_
      cases heq
      rfl
  accept {n b x phase b' phase'} h _ hs := by
    refine ⟨(ShapeInv.closed N).accept (n := n) h.1 trivial hs, ?_⟩
    rw [Block.acceptInputAsync_eq hs]
    exact h.2.congr rfl id rfl rfl
  faultThread {n b} h :=
    ⟨(ShapeInv.closed N).faultThread (n := n) h.1,
      ⟨h.2.startTask, h.2.opened, fun hf => absurd rfl hf, h.2.offering⟩⟩

end WorkingInv

/-! ## The blocks that are called -/

/-- Where the thread that holds `_stateMutex` of `p` is in a call of a next block, it holds the
    `_stateMutex` of that block. -/
def Dataflow.Called (s : Dataflow Node Item σ ε) (p : Node) : Prop :=
  ∀ a c o, (s.block p).stateMutex = some a → a.section_.InCall c o →
    ∃ sec, (s.block c).stateMutex = some ⟨.block p, sec⟩ ∧ sec.opening = o

/-- This holds of all blocks but the one that `caller` is. -/
def Dataflow.CalledBut (s : Dataflow Node Item σ ε) (caller : Caller Node) : Prop :=
  ∀ p, caller ≠ .block p → s.Called p

variable [DecidableEq Node]

namespace Dataflow

variable {N : Network Node Item σ ε} {s s' : Dataflow Node Item σ ε} {n : Node}

/-- The section of block `n` changes. The blocks in a call of `n` are still in it, and `n` is in
    no call, or the exception. -/
theorem CalledBut.set {caller : Caller Node} (h : s.CalledBut caller) {b : Block Node Item σ ε}
    (hkeep : ∀ p sec, (s.block n).stateMutex = some ⟨.block p, sec⟩ → caller ≠ .block p →
      ∃ sec', b.stateMutex = some ⟨.block p, sec'⟩ ∧ sec'.opening = sec.opening)
    (hnot : ∀ a c o, b.stateMutex = some a → a.section_.InCall c o → caller = .block n) :
    (s.set n b).CalledBut caller := by
  intro p hp a c o ha hin
  by_cases hpn : p = n
  · subst hpn
    rw [set_block_self] at ha
    exact absurd (hnot a c o ha hin) hp
  · rw [set_block_of_ne _ _ hpn] at ha
    obtain ⟨sec, hc, ho⟩ := h p hp a c o ha hin
    by_cases hcn : c = n
    · subst hcn
      obtain ⟨sec', hc', ho'⟩ := hkeep p sec hc hp
      exact ⟨sec', by rwa [set_block_self], ho'.trans ho⟩
    · exact ⟨sec, by rwa [set_block_of_ne _ _ hcn], ho⟩

/-- A call that has ended goes back to its caller, or the program terminates. -/
theorem CalledBut.reply {caller : Caller Node} (h : s.CalledBut caller) {r : Reply Node ε}
    (hr : r = .returned caller ∨ ∃ e, r = .threw e caller) :
    (s.reply r).terminated = true ∨ (s.reply r).CalledBut .user := by
  have hall : (∀ p, caller ≠ .block p) → s.CalledBut .user := fun hne p _ => h p (hne p)
  cases caller with
  | user =>
    refine .inr ?_
    rcases hr with rfl | ⟨e, rfl⟩ <;> exact hall nofun
  | faultThread =>
    rcases hr with rfl | ⟨e, rfl⟩
    · exact .inr (hall nofun)
    · exact .inl rfl
  | block q =>
    have hself : ∀ {b : Block Node Item σ ε},
        (∀ p sec, (s.block q).stateMutex = some ⟨.block p, sec⟩ →
          ∃ sec', b.stateMutex = some ⟨.block p, sec'⟩ ∧ sec'.opening = sec.opening) →
        (∀ a c o, b.stateMutex = some a → ¬ a.section_.InCall c o) →
          (s.set q b).CalledBut .user := by
      intro b hkeep hnot p _ a c o ha hin
      have hset := h.set (b := b) (fun p sec hm _ => hkeep p sec hm)
        fun a c o ha hin => absurd hin (hnot a c o ha)
      by_cases hpq : p = q
      · subst hpq
        rw [set_block_self] at ha
        exact absurd hin (hnot a c o ha)
      · exact hset p (by simpa using Ne.symm hpq) a c o ha hin
    rcases hr with rfl | ⟨e, rfl⟩
    · refine .inr (hself (fun p sec hm => ?_) fun a c o ha => ?_)
      · rw [hm]
        cases sec <;> exact ⟨_, rfl, rfl⟩
      · obtain ⟨⟨caller', sec⟩, -, rfl⟩ := Option.map_eq_some_iff.mp ha
        cases sec <;> exact id
    · simp only [Dataflow.reply]
      split
      · rename_i caller' calling hm
        refine .inr (hself (fun p sec hm' => ?_) fun a c o ha => ?_)
        · cases hm.symm.trans hm'
          exact ⟨_, rfl, rfl⟩
        · cases ha
          exact id
      · exact .inl rfl

/-- The block that `p` calls answers at once. -/
theorem CalledBut.answer {c : Node} {caller : Caller Node} (h : s.CalledBut caller)
    (hfree : (s.block c).stateMutex = none) {b : Block Node Item σ ε} (hb : b.stateMutex = none) :
    (s.set c b).CalledBut caller := by
  refine h.set (fun p sec hm => ?_) fun a d o ha => ?_
  · cases hfree.symm.trans hm
  · cases hb.symm.trans ha

/-- The block that `p` calls is locked for it. -/
theorem CalledBut.enter {c : Node} {caller : Caller Node} (h : s.CalledBut caller)
    (hfree : (s.block c).stateMutex = none) {b : Block Node Item σ ε} {sec : Section Node ε}
    (hb : b.stateMutex = some ⟨caller, sec⟩) (hsec : ∀ d o, ¬ sec.InCall d o)
    (hin : ∀ p, caller = .block p → ∀ a d o, (s.block p).stateMutex = some a →
      a.section_.InCall d o → d = c ∧ o = sec.opening) : (s.set c b).CalledBut .user := by
  have hset := h.set (b := b) (fun p sec' hm => by cases hfree.symm.trans hm)
    fun a d o ha hd => by
      cases hb.symm.trans ha
      exact absurd hd (hsec d o)
  intro p _ a d o ha hd
  by_cases hp : caller = .block p
  · by_cases hpc : p = c
    · subst hpc
      rw [set_block_self, hb] at ha
      cases ha
      exact absurd hd (hsec d o)
    · rw [set_block_of_ne _ _ hpc] at ha
      obtain ⟨rfl, rfl⟩ := hin p hp a d o ha hd
      exact ⟨sec, by rw [set_block_self, hb, hp], rfl⟩
  · exact hset p hp a d o ha hd

theorem CalledBut.start {c : Node} {caller : Caller Node} (h : s.CalledBut caller)
    (hin : ∀ p, caller = .block p → ∀ a d o, (s.block p).stateMutex = some a →
      a.section_.InCall d o → d = c ∧ o = true) (hs : s.start c caller = some s') :
    s'.terminated = true ∨ s'.CalledBut .user := by
  obtain ⟨⟨b, r⟩, hb, rfl⟩ := Option.map_eq_some_iff.mp hs
  unfold Block.start at hb
  split at hb
  · cases hb
  · rename_i hfree
    simp only at hb
    split at hb <;> cases hb
    · exact CalledBut.reply (h.answer hfree (by exact hfree)) (.inl rfl)
    · exact .inr (h.enter hfree (by rfl) (fun _ _ => id) (by exact hin))
    · exact .inr (h.enter hfree (by rfl) (fun _ _ => id) (by exact hin))
    · exact CalledBut.reply (h.answer hfree (by exact hfree)) (.inr ⟨_, rfl⟩)

theorem CalledBut.completeCommon {c : Node} {caller : Caller Node} {e : Option (Exn ε)}
    (h : s.CalledBut caller)
    (hin : ∀ p, caller = .block p → ∀ a d o, (s.block p).stateMutex = some a →
      a.section_.InCall d o → d = c ∧ o = false) (hs : s.completeCommon c caller e = some s') :
    s'.terminated = true ∨ s'.CalledBut .user := by
  obtain ⟨⟨b, r⟩, hb, rfl⟩ := Option.map_eq_some_iff.mp hs
  unfold Block.completeCommon at hb
  split at hb
  · cases hb
  · rename_i hfree
    simp only at hb
    split_ifs at hb
    · cases hb
      exact CalledBut.reply (h.answer hfree (by exact hfree)) (.inl rfl)
    · split at hb <;> cases hb
      · exact CalledBut.reply (h.answer hfree (by exact hfree)) (.inr ⟨_, rfl⟩)
      · exact CalledBut.reply (h.answer hfree (by exact hfree)) (.inl rfl)
      · exact .inr (h.enter hfree (by rfl) (fun _ _ => id) (by exact hin))

/-- The section goes on, in the same call. -/
theorem CalledBut.relock (h : s.CalledBut .user) {b : Block Node Item σ ε} {caller : Caller Node}
    {old sec : Section Node ε} (hm : (s.block n).stateMutex = some ⟨caller, old⟩)
    (hb : b.stateMutex = some ⟨caller, sec⟩) (hsec : sec.opening = old.opening) {x : Caller Node}
    (hx : ∀ c o, sec.InCall c o → x = .block n) : (s.set n b).CalledBut x := by
  have hsub : s.CalledBut x := fun p _ => h p nofun
  refine hsub.set (fun p sec' hm' _ => ?_) fun a c o ha hin => ?_
  · cases hm.symm.trans hm'
    exact ⟨sec, hb, hsec⟩
  · cases hb.symm.trans ha
    exact hx c o hin

/-- The section ends. -/
theorem CalledBut.unlock (h : s.CalledBut .user) {b : Block Node Item σ ε} {caller : Caller Node}
    {old : Section Node ε} (hm : (s.block n).stateMutex = some ⟨caller, old⟩)
    (hb : b.stateMutex = none) : (s.set n b).CalledBut caller := by
  have hsub : s.CalledBut caller := fun p _ => h p nofun
  refine hsub.set (fun p sec' hm' hne => ?_) fun a c o ha hin => ?_
  · cases hm.symm.trans hm'
    exact absurd rfl hne
  · cases hb.symm.trans ha

theorem CalledBut.advance (h : s.CalledBut .user) (hs : s.advance n = some s') :
    s'.terminated = true ∨ s'.CalledBut .user := by
  unfold Dataflow.advance at hs
  split at hs
  · cases hs
  · rename_i b r hb
    cases hs
    cases Block.advance_cases hb with
    | opened hm ht | finished hm ht => exact CalledBut.reply (h.unlock hm (by rfl)) (.inl rfl)
    | rethrown hm ht | throwing hm => exact CalledBut.reply (h.unlock hm (by rfl)) (.inr ⟨_, rfl⟩)
    | cancel hm | canceled hm => exact .inr (h.relock hm (by rfl) (by rfl) (by nofun))
    | runCancel hm => exact .inr (h.relock hm (by exact hm) (by rfl) (by nofun))
    | @waited caller e r hm hr => cases r <;> exact .inr (h.relock hm (by rfl) (by rfl) (by nofun))
  · rename_i b c hb
    cases Block.advance_cases hb with
    | startNext hm ht =>
      refine CalledBut.start (h.relock hm (by rfl) (by rfl) fun _ _ _ => rfl)
        (fun p hp a d o ha hin => ?_) hs
      cases hp
      rw [set_block_self] at ha
      cases ha
      exact ⟨hin.1.symm, hin.2⟩
  · rename_i b c e hb
    cases Block.advance_cases hb with
    | completeNext hm ht =>
      refine CalledBut.completeCommon
        (h.relock hm (by rfl) (by rfl) fun _ _ _ => rfl) (fun p hp a d o ha hin => ?_) hs
      cases hp
      rw [set_block_self] at ha
      cases ha
      exact ⟨hin.1.symm, hin.2⟩

omit [DecidableEq Node] in
theorem CalledBut.congr (h : s.CalledBut .user)
    (hm : ∀ m, (s'.block m).stateMutex = (s.block m).stateMutex) : s'.CalledBut .user := by
  intro p hp
  unfold Called
  simp only [hm]
  exact h p hp

theorem CalledBut.step (h : s.CalledBut .user) {a : DataflowLabel Node Item ε}
    (hs : s.step N a = some s') : s'.terminated = true ∨ s'.CalledBut .user := by
  have hquiet : a.movesItems → s'.CalledBut .user := by
    intro ha
    refine h.congr fun m => ?_
    have hcalls := step_calls hs ha m
    simp only [Block.calls, Prod.mk.injEq] at hcalls
    exact hcalls.2.1
  unfold Dataflow.step at hs
  split_ifs at hs
  cases a with
  | start m => exact h.start (by simp) hs
  | complete m | setFaulted m e => exact h.completeCommon (by simp) hs
  | advance m => exact h.advance hs
  | process m | runCall k | acceptInputAsync m item => exact .inr (hquiet rfl)
  | runFaultThread m =>
    simp only at hs
    split at hs
    · cases hs
    · have hset : (s.set m { s.block m with faultThread := none }).CalledBut .faultThread :=
        fun p _ => (h.congr (set_congr (f := Block.stateMutex) (by rfl))) p (by simp)
      exact hset.completeCommon (by simp) hs

end Dataflow

/-! ## Networks that are being connected -/

structure RestInv (N : Network Node Item σ ε) (s : ConnectedDataflow Node Item σ ε) : Prop where
  blocks : ConnectedInv N s
  working : ∀ n, WorkingInv (s.flow.block n)
  queue : ∀ n, QueueUse (s.flow.block n)
  callers : CallersInv s.flow
  called : s.flow.terminated = true ∨ s.flow.CalledBut .user

namespace RestInv

variable {N : Network Node Item σ ε} {s s' : ConnectedDataflow Node Item σ ε}

theorem connectTo (h : RestInv N s) (p c : Node) : RestInv N (s.connectTo p c) where
  blocks := h.blocks.connectTo p c
  working := Dataflow.forall_set (P := fun _ b => WorkingInv b) h.working
    ((h.working p).congr rfl id rfl rfl)
  queue := Dataflow.forall_set (P := fun _ b => QueueUse b) h.queue { h.queue p with }
  callers := h.callers.congr h.callers.fresh (fun _ _ _ _ _ => Iff.rfl)
    (Dataflow.set_congr (f := Block.releases) (by rfl))
  called := h.called.imp_right fun hc =>
    hc.congr (Dataflow.set_congr (f := Block.stateMutex) (by rfl))

theorem step_flow (h : RestInv N s) {a : DataflowLabel Node Item ε} {flow : Dataflow Node Item σ ε}
    (hs : s.flow.step (N.connected s.outputNodes) a = some flow) {escaped : Bool} :
    RestInv N { s with flow := flow, escaped := escaped } where
  blocks := h.blocks.step_flow hs
  working n := ((WorkingInv.closed _).step
    (fun m => ⟨⟨h.blocks.task m, h.blocks.shape m⟩, h.working m⟩) (fun _ _ _ _ => trivial) hs n).2
  queue := (QueueUse.closed _).step h.queue (fun _ _ _ _ => trivial) hs
  callers := h.callers.step hs
  called := by
    rcases h.called with ht | hc
    · simp [Dataflow.step, ht] at hs
    · exact hc.step hs

theorem step (h : RestInv N s) {a : ConnectedLabel Node Item ε} (hs : s.step N a = some s') :
    RestInv N s' := by
  cases a with
  | connectTo p c =>
    simp only [ConnectedDataflow.step] at hs
    split_ifs at hs
    cases hs
    exact h.connectTo p c
  | step a =>
    simp only [ConnectedDataflow.step, Option.map_eq_some_iff] at hs
    obtain ⟨flow, hf, rfl⟩ := hs
    exact h.step_flow hf

theorem init : RestInv N (connectedMachine N).init where
  blocks := .init
  working _ :=
    ⟨.inl rfl, fun hst => absurd rfl hst, fun hf => absurd rfl hf, by simp [connectedMachine]⟩
  queue _ := .init rfl rfl rfl
  callers := by
    have hnone : ∀ (c : Node) (phase : AcceptPhase ε), phase.releases →
        (connectedMachine N).init.flow.callsIn c phase = ∅ := by
      rintro c phase hp
      ext a
      cases a with
      | runCall k => simp [Dataflow.runCall_mem_callsIn, connectedMachine]
      | process n =>
        simp [Dataflow.process_mem_callsIn hp, connectedMachine, Processing.releasing]
      | _ => simp [Dataflow.callsIn, Dataflow.accepting]
    refine ⟨fun _ _ => rfl, fun c => ⟨?_, ?_, ?_, fun hin => by cases hin⟩⟩
    · rw [hnone c _ rfl, Set.encard_empty]
      rfl
    · rw [hnone c _ rfl]
      simp
    · rw [hnone c _ rfl]
      simp
  called := .inr fun p _ a c o ha => by cases ha

end RestInv

namespace Finished

variable {N : Network Node Item σ ε} {s : Dataflow Node Item σ ε}

theorem process (h : Finished N s) (ht : s.terminated = false) (n : Node) :
    s.process N n = none := by
  simpa [Dataflow.step, ht] using h (.process n) rfl

theorem advance (h : Finished N s) (ht : s.terminated = false) (n : Node) :
    s.advance n = none := by
  simpa [Dataflow.step, ht] using h (.advance n) rfl

/-- No call of `AcceptInputAsync` can go on. -/
theorem accept (h : Finished N s) (ht : s.terminated = false) {a : DataflowLabel Node Item ε}
    {c : Node} {x : QueueItem Node Item} {phase : AcceptPhase ε}
    (ha : s.accepting a = some (c, x, phase)) : (s.block c).acceptInputAsync x phase = none := by
  cases a with
  | runCall k =>
    obtain ⟨call, hc, hx⟩ := Option.map_eq_some_iff.mp ha
    cases hx
    have hrun : s.runCall k = none := by simpa [Dataflow.step, ht] using h (.runCall k) rfl
    simpa [Dataflow.runCall, hc] using hrun
  | process n =>
    simp only [Dataflow.accepting] at ha
    split at ha
    · rename_i hp
      cases ha
      simpa [Dataflow.process, hp] using h.process ht n
    · cases ha
  | _ => cases ha

end Finished

/-! ### The blocks -/

namespace RestInv

variable {N : Network Node Item σ ε} {s : ConnectedDataflow Node Item σ ε}

end RestInv

end AsyncCpp.DataFlow
