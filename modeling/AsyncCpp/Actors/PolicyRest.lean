import AsyncCpp.Actors.PolicyRuns
import AsyncCpp.Tasks.TaskRest

/-!
# An actor with a policy comes to rest

Without new calls every step of the queue, of a coroutine of `ScheduleFunction` and of the
continuation task lowers `PolicySystem.todo`. `Completion()` of the queue is completed once, and
then `Start()` of the continuation task is called.

Results:
* `PolicySystem.length_le_todo`: a run of such steps is not longer than `todo`.
-/

namespace AsyncCpp.DataFlow

open Tasks

variable {Node Item σ ε : Type*} {N : Network Node Item σ ε}

/-- `Completion()` stays completed. -/
theorem Block.closed_completed :
    Closed N (fun _ _ => True)
      fun _ (b : Block Node Item σ ε) => b.completedTask.state.isCompleted where
  start h hs := by rw [(Block.start_eq hs).1]; exact h
  completeCommon h hs := by rw [Block.completeCommon_eq hs]; exact h
  advance {n b b' r} h hs := by
    cases Block.advance_cases hs with
    | @waited caller e r =>
      have hne : b.completedTask.state ≠ .created := by
        intro hst
        rw [hst] at h
        cases h
      cases r with
      | error ex => exact h
      | ok u =>
        cases e with
        | none =>
          simp only [Block.waited, TaskSharedState.exec, SetCall.apply, if_pos hne]
          exact h
        | some e =>
          simp only [Block.waited, TaskSharedState.exec, SetCall.apply, if_pos hne]
          exact h
    | _ => exact h
  resumed h := h
  throwing h _ := h
  process {n b b'} h hs := by
    cases Block.process_cases hs <;> exact h
  asked h _ _ := h
  offered h _ := h
  accept h _ hs := by rw [Block.acceptInputAsync_eq hs]; exact h
  faultThread h := h

/-! ## The queue with its function -/

/-- The steps left, with the call of the function that a step of the processing task ends. -/
def HandlerSystem.todo (s : HandlerSystem Unit Item σ ε) : ℕ :=
  2 * s.dataflow.todo + if s.handler () = .idle then 1 else 0

/-- The network or the function goes on. -/
theorem HandlerSystem.step_todo {N : Network Unit Item σ ε} {s s' : HandlerSystem Unit Item σ ε}
    (hleaf : N.outputNodes () = [])
    {G : Dataflow Unit Item σ ε → DataflowLabel Unit Item ε → Prop}
    (h : (dataflowMachine N).Reachable G s.dataflow) {a : HandlerLabel Unit Item ε}
    (ha : a = .call () ∨ ∃ b : DataflowLabel Unit Item ε, b.isCall = false ∧ a = .dataflow b)
    (hs : s.step N a = some s') : s'.todo < s.todo := by
  rcases ha with rfl | ⟨b, hb, rfl⟩
  · cases HandlerSystem.step_cases hs with
    | call hidle =>
      simp only [todo, goto, Function.update_self, hidle, if_true]
      simp
  · cases HandlerSystem.step_cases hs with
    | dataflow hin ht =>
      have hlt := Actors.todo_step hleaf h hb ht
      simp only [todo, moved_dataflow]
      split_ifs <;> omega

end AsyncCpp.DataFlow

namespace AsyncCpp.Actors.ActorPolicy

open Interleaving Tasks DataFlow

variable {Result S ε T : Type} [DecidableEq T] {members : S}

/-- The steps left to a coroutine of `ScheduleFunction`. -/
def SchedulePc.todo : SchedulePc Result ε → ℕ
  | .accepting => 3
  | .awaiting => 2
  | .finalSuspend _ => 1
  | .ended _ => 0

omit [DecidableEq T] in
theorem SchedulePc.step_todo {Item : Type} {call : Option (AcceptCall Unit Item ε)}
    {tcs : TaskSharedState (Option Result) ε} {pc pc' : SchedulePc Result ε}
    (hs : pc.step call tcs = some pc') : pc'.todo < pc.todo := by
  cases pc with
  | accepting =>
    simp only [step] at hs
    split at hs <;> cases hs <;> simp only [todo] <;> omega
  | awaiting =>
    simp only [step] at hs
    split_ifs at hs
    split at hs <;> cases hs <;> simp only [todo] <;> omega
  | finalSuspend r =>
    cases hs
    exact Nat.zero_lt_one
  | ended r => cases hs

namespace PolicySystem

variable {s s' : PolicySystem Result S ε T} {l : PolicyLabel Result S ε T}

/-- A thread in the code of the queue, of a coroutine or of the continuation task goes on. -/
def goesOn : PolicyLabel Result S ε T → Bool
  | .accept _ | .coroutine _ | .call | .process | .runFaultThread | .advance | .starting
  | .completion (.run _) => true
  | .start | .scheduleFunction _ | .complete _ _ | .queueComplete _ | .wait _
  | .completeReturns _ | .completion _ => false

/-! ## The coroutines and their calls -/

/-- A coroutine is past `AcceptInputAsync` when it has called it. -/
structure PastAccept (members : S) (s : PolicySystem Result S ε T) : Prop where
  queue : (dataflowMachine (ActorPolicy.actorQueue members)).Reachable Machine.Any
    s.actorQueue.dataflow
  called : ∀ k, s.actorQueue.dataflow.call k = none → s.coroutine k = .accepting

/-- No call is forgotten. -/
theorem call_of_step {N : Network Unit (ScheduledFunction Result S ε × ℕ)
      (ReplyState (Option Result) S ε) ε}
    {q q' : Dataflow Unit (ScheduledFunction Result S ε × ℕ) (ReplyState (Option Result) S ε) ε}
    {a : DataflowLabel Unit (ScheduledFunction Result S ε × ℕ) ε} (hs : q.step N a = some q')
    {k : ℕ} (hk : q'.call k = none) : q.call k = none := by
  have hupdate : ∀ {j : ℕ} {c : AcceptCall Unit (ScheduledFunction Result S ε × ℕ) ε},
      Function.update q.call j (some c) k = none → q.call k = none := by
    intro j c hnone
    by_cases hkj : k = j
    · subst hkj
      rw [Function.update_self] at hnone
      cases hnone
    · rwa [Function.update_of_ne hkj] at hnone
  cases Dataflow.calls_cases hs with
  | made n item => exact hupdate hk
  | ran hc hb => exact hupdate hk
  | kept hcall => rwa [hcall] at hk

namespace PastAccept

theorem step (h : PastAccept members s) (hs : s.step members l = some s') :
    PastAccept members s' := by
  have hstep := step_cases hs
  -- the queue takes a step, or stays as it is
  have hqueue : (dataflowMachine (ActorPolicy.actorQueue members)).Reachable Machine.Any
        s'.actorQueue.dataflow ∧
      ∀ k, s'.actorQueue.dataflow.call k = none → s.actorQueue.dataflow.call k = none := by
    rcases hstep.queue_cases with ⟨a, -, hq, -⟩ | hq
    · rcases HandlerSystem.step_dataflow hq with ⟨b, -, hb⟩ | ⟨-, hb⟩
      · exact ⟨h.queue.step trivial hb, fun k => call_of_step hb⟩
      · rw [hb]
        exact ⟨h.queue, fun _ hk => hk⟩
    · rw [hq]
      exact ⟨h.queue, fun _ hk => hk⟩
  refine ⟨hqueue.1, fun k hk => ?_⟩
  have hold := hqueue.2 k hk
  have haccepting := h.called k hold
  cases hstep with
  | @coroutine j pc hpc =>
    by_cases hkj : k = j
    · subst hkj
      rw [hold, haccepting] at hpc
      cases hpc
    · exact (Function.update_of_ne hkj ..).trans haccepting
  | advance hidle hb hq hs => rwa [(advanced_spec hs).coroutine]
  | queue | queueComplete | starting | accepted | refused | wait | completeReturns | completion =>
    exact haccepting

end PastAccept

/-! ## The steps of the actor -/

variable [Fintype T]

/-- The steps of the `Start()` of the continuation task, until it is called. -/
def startTodo (T : Type) [Fintype T] (completed : Bool) : ℕ :=
  if completed then 0 else 3 * Fintype.card (Option T) + 4

/-- The steps left to the threads of the actor. -/
def todo (s : PolicySystem Result S ε T) : ℕ :=
  s.actorQueue.todo +
    ∑ k ∈ Finset.range s.actorQueue.dataflow.calls, (s.coroutine k).todo +
    s.completionTask.todo + startTodo T s.block.completedTask.state.isCompleted

omit [DecidableEq T] [Fintype T] in
/-- The queue or its function goes on. -/
theorem queue_todo (h : PastAccept members s)
    {a : HandlerLabel Unit (ScheduledFunction Result S ε × ℕ) ε}
    (ha : a = .call () ∨ ∃ b : DataflowLabel Unit (ScheduledFunction Result S ε × ℕ) ε,
      b.isCall = false ∧ a = .dataflow b)
    {q : HandlerSystem Unit (ScheduledFunction Result S ε × ℕ) (ReplyState (Option Result) S ε) ε}
    (hq : HandlerSystem.step (ActorPolicy.actorQueue members) s.actorQueue a = some q) :
    q.todo < s.actorQueue.todo ∧ q.dataflow.calls = s.actorQueue.dataflow.calls := by
  refine ⟨HandlerSystem.step_todo rfl h.queue ha hq, ?_⟩
  rcases HandlerSystem.step_dataflow hq with ⟨b, hb, ht⟩ | ⟨-, ht⟩
  · generalize q.dataflow = flow at ht ⊢
    cases Dataflow.calls_cases ht with
    | made n item =>
      rcases ha with rfl | ⟨b', hb', rfl⟩
      · cases hb
      · cases hb
        cases hb'
    | ran => rfl
    | kept hcall hcalls => exact hcalls
  · rw [ht]

/-- The holder of `_stateMutex` of the queue goes on. It pays for the `Start()` of the
    continuation task when it completes `Completion()`. -/
theorem advance_todo (h : PastAccept members s) {next : NextCall Unit ε}
    {q : HandlerSystem Unit (ScheduledFunction Result S ε × ℕ) (ReplyState (Option Result) S ε) ε}
    (hq : HandlerSystem.step (ActorPolicy.actorQueue members) s.actorQueue
      (.dataflow (.advance ())) = some q) (hadv : Advanced s next q s') : s'.todo < s.todo := by
  obtain ⟨hlt, hcalls⟩ := queue_todo h (.inr ⟨_, rfl, rfl⟩) hq
  have hkept : s.block.completedTask.state.isCompleted →
      s'.block.completedTask.state.isCompleted := by
    intro hc
    rw [block, hadv.queue]
    rcases HandlerSystem.step_dataflow hq with ⟨b, -, hb⟩ | ⟨-, hb⟩
    · exact Block.closed_completed.step (fun _ => hc) (fun _ _ _ _ => trivial) hb ()
    · rw [hb]
      exact hc
  have hqueue : s'.actorQueue = q := hadv.queue
  unfold todo
  rw [hqueue, hcalls, hadv.coroutine]
  rcases hadv.completion with ⟨hnew, hold, hstart⟩ | ⟨hold, heq⟩
  · have hle := TaskSystem.start_todo hstart
    simp only [startTodo, hnew, hold, if_true, Bool.false_eq_true, if_false]
    omega
  · have hsame : s'.block.completedTask.state.isCompleted =
        s.block.completedTask.state.isCompleted := Bool.eq_iff_iff.mpr ⟨hold, hkept⟩
    rw [heq, hsame]
    omega

/-- A thread goes on. -/
theorem step_todo (h : PastAccept members s) (hl : goesOn l = true)
    (hs : s.step members l = some s') : s'.todo < s.todo := by
  cases step_cases hs with
  | @queue l a q hlabel ha hq =>
    have hown : a = .call () ∨ ∃ b : DataflowLabel Unit (ScheduledFunction Result S ε × ℕ) ε,
        b.isCall = false ∧ a = .dataflow b := by
      cases l with
      | accept k | process | runFaultThread =>
        cases hlabel
        exact .inr ⟨_, rfl, rfl⟩
      | call =>
        cases hlabel
        exact .inl rfl
      | advance =>
        cases hlabel
        exact ha.elim
      | start | scheduleFunction | queueComplete => cases hl
      | coroutine | starting | complete | wait | completeReturns | completion => cases hlabel
    have hnot : ∀ n, s.actorQueue.base a ≠ some (.advance n) := by
      rintro n hn
      cases a with
      | dataflow b =>
        cases hn
        exact ha
      | resume n => exact ha
      | _ => cases hn
    obtain ⟨hlt, hcalls⟩ := queue_todo h hown hq
    have hsame := completedTask_eq hq hnot
    simp only [block] at hsame
    simp only [todo, block, hcalls, hsame]
    omega
  | queueComplete | accepted | refused | wait | completeReturns => cases hl
  | advance hidle hb hq hs => exact advance_todo h hq (advanced_spec hs)
  | @coroutine k pc hpc =>
    have hlt : k < s.actorQueue.dataflow.calls := by
      by_contra hge
      have hnone := (reachable_callInv h.queue).fresh k (Nat.le_of_not_lt hge)
      rw [hnone, h.called k hnone] at hpc
      cases hpc
    have hsum := sum_update SchedulePc.todo s.coroutine (Finset.mem_range.mpr hlt) pc
    have hstep := SchedulePc.step_todo hpc
    simp only [todo, block]
    omega
  | starting hc =>
    have hlt := TaskSystem.runStep_todo hc
    simp only [todo, block]
    omega
  | @completion l c hallows hc =>
    cases l with
    | run t =>
      have hlt := TaskSystem.runStep_todo hc
      simp only [todo, block]
      omega
    | _ => cases hl

/-- A run without new calls comes to an end. -/
theorem length_le_todo (h : PastAccept members s) {ls : List (PolicyLabel Result S ε T)}
    (hown : ∀ l ∈ ls, goesOn l = true) (hrun : (policyMachine members T).run s ls = some s') :
    ls.length ≤ s.todo := by
  have hle : ls.length + s'.todo ≤ s.todo :=
    Machine.length_add_le (M := policyMachine members T) (I := PastAccept members) (μ := todo)
      (fun _ _ _ hi _ hs => hi.step hs) (fun _ _ _ hi hl hs => step_todo hi hl hs) h hown hrun
  omega

end PolicySystem

end AsyncCpp.Actors.ActorPolicy
