import AsyncCpp.Actors.PolicyInOrder
import AsyncCpp.Lib.Mailbox

/-!
# An actor with a policy is a mailbox

What `ActorPolicy` is for: a mailbox of functions that work on the members of the actor one after
the other, and `OnCompleted()` after them. The block of the queue with its processing task, its
semaphore and its mutex, the coroutines of `ScheduleFunction` and the continuation task come down
to the six steps of Lib/Mailbox.lean.

Results:
* `policy_simulates_mailbox`: an actor with a policy is simulated by a mailbox.
-/

namespace AsyncCpp.Actors

open Interleaving Tasks DataFlow

variable {Item σ ε : Type*} {N : Network Unit Item σ ε} {s s' : Dataflow Unit Item σ ε}

/-- A block of an actor that is closed stays closed. -/
theorem ActorInv.closed_step (h : ActorInv s) (hf : BlockFacts N (s.block ()))
    (hh : HealthyInv (s.block ())) (hleaf : N.outputNodes () = [])
    {a : DataflowLabel Unit Item ε} (hg : ActorCalls s a) (hs : s.step N a = some s')
    (hcl : (s.block ()).state.isClosed) : (s'.block ()).state.isClosed := by
  unfold Dataflow.step at hs
  split_ifs at hs
  cases a with
  | start n =>
    obtain ⟨⟨b, r⟩, hb, rfl⟩ := Option.map_eq_some_iff.mp hs
    obtain ⟨-, rfl⟩ := h.block.start hf.task hg hb
    show b.state.isClosed
    rwa [(Block.start_eq hb).1]
  | complete n =>
    obtain ⟨⟨b, r⟩, hb, rfl⟩ := Option.map_eq_some_iff.mp hs
    obtain ⟨-, hcl', hr⟩ := h.block.completeCommon hf.task hf.shape hg.1 hb
    rcases hr with rfl | rfl <;> exact hcl'
  | setFaulted n e => exact hg.elim
  | acceptInputAsync n item =>
    cases hs
    exact hcl
  | runCall k =>
    obtain ⟨c, b, phase, -, hb, rfl⟩ := Dataflow.runCall_cases hs
    show b.state.isClosed
    rwa [Block.acceptInputAsync_eq hb]
  | advance n =>
    simp only [Dataflow.advance] at hs
    split at hs
    · cases hs
    · rename_i b r hb
      obtain ⟨-, hiff, hr⟩ := h.block.advance hf.shape hf.next hleaf hh.notFailed hb
      cases hs
      rcases hr with hr | hr <;> cases hr <;> exact hiff.mpr hcl
    all_goals
      rename_i hb
      obtain ⟨-, -, hr⟩ := h.block.advance hf.shape hf.next hleaf hh.notFailed hb
      rcases hr with hr | hr <;> cases hr
  | process n =>
    obtain ⟨b, hb, rfl⟩ := process_block hf.work hleaf hs
    show b.state.isClosed
    rwa [show b.state = (s.block ()).state from congrArg Prod.fst (Block.process_calls hb)]
  | runFaultThread n =>
    have hnone : (s.block n).faultThread = none := hh.faultThread
    simp only [hnone] at hs
    cases hs

/-- What is added to the queue is added while the block is started. -/
theorem ActorInv.pushed_cases (h : ActorInv s) (hf : BlockFacts N (s.block ()))
    (hleaf : N.outputNodes () = []) (a : DataflowLabel Unit Item ε) :
    s.pushed a () = [] ∨ (s.block ()).state.isClosed = false ∧ ∃ x, s.pushed a () = [x] := by
  by_cases hpush : ∃ c x, s.accepting a = some (c, x, .push)
  · obtain ⟨c, x, hacc⟩ := hpush
    obtain ⟨k, call, -, hcall, -, hphase⟩ := accepting_cases hf.work hleaf hacc
    refine .inr ⟨?_, x, (Dataflow.pushed_of_push hacc ()).trans (if_pos rfl)⟩
    by_contra hcl
    have hout := h.ended (by simpa using hcl) k call hcall
    rw [hphase] at hout
    cases hout
  · refine .inl (List.eq_nil_iff_forall_not_mem.mpr fun x hx => ?_)
    exact hpush ⟨_, x, Dataflow.mem_pushed hx⟩

end AsyncCpp.Actors

namespace AsyncCpp.Actors.ActorPolicy

open Interleaving Tasks DataFlow

variable {Result S ε T : Type} [DecidableEq T] {members : S}

namespace PolicySystem

variable {s s' : PolicySystem Result S ε T} {l : PolicyLabel Result S ε T}

/-- The item whose function object is called and has not returned. -/
def inFunction
    (q : HandlerSystem Unit (ScheduledFunction Result S ε × ℕ) (ReplyState (Option Result) S ε) ε) :
    Option (QueueItem Unit (ScheduledFunction Result S ε × ℕ)) :=
  if q.handler () = .running then (q.dataflow.block ()).processingTask.invoking else none

/-- What is seen of the actor. -/
def view (s : PolicySystem Result S ε T) : Mailbox.View (ScheduledFunction Result S ε) where
  accepted := messages s.block.inputItems.added
  ran := messages (s.block.ran ++ (inFunction s.actorQueue).toList)
  running := (inFunction s.actorQueue).isSome
  completing := s.block.state.isClosed
  closed := s.block.completedTask.state.isCompleted
  completed := !s.completionTask.funcLog.isEmpty

/-- The function object that is called is the first one that has not run. -/
theorem ran_inFunction_added (h : (policyMachine members T).Reachable PolicyUse s) :
    s.block.ran ++ (inFunction s.actorQueue).toList <+: s.block.inputItems.added := by
  obtain ⟨hh, -, -⟩ := reachable_actorInv h
  have hr := reaches_under (reachable_queue h)
  obtain ⟨hdrain, -, -⟩ := Actors.reachable_actorInv rfl (fun _ _ hg => hg.1)
    (returning_of_answering (answering_actorQueue members)) hr
  obtain ⟨xs, hxs⟩ := ran_prefix (reachable_queueInv (hdrain.mono fun _ _ hg => hg.2) ()) hh
  have hin : (inFunction s.actorQueue).toList <+: s.block.hand := by
    unfold inFunction
    split_ifs
    · cases hp : (s.actorQueue.dataflow.block ()).processingTask with
      | invoke x rest => simp [Processing.invoking, Block.hand, block, hp]
      | _ => simp [Processing.invoking]
    · exact List.nil_prefix
  rw [block, hxs, List.append_assoc, List.prefix_append_right_inj]
  exact hin.trans (List.prefix_append _ _)

/-! ## The queue -/

section Queue

variable
  {q q' : HandlerSystem Unit (ScheduledFunction Result S ε × ℕ) (ReplyState (Option Result) S ε) ε}
  {a : HandlerLabel Unit (ScheduledFunction Result S ε × ℕ) ε}

/-- The running of the function objects in a step of the queue that is not a call of a function
    object itself. -/
theorem runs_step
    (hq : HandlerSystem.step (ActorPolicy.actorQueue members) q a = some q') (hev : q.EventsInv)
    (hserving : q.handler () = .idle ∨ q.handler () = .running)
    (ha : a = .call () ∨ ∃ b, a = .dataflow b) (v v' : Mailbox.View (ScheduledFunction Result S ε))
    (hran : v.ran = messages ((q.dataflow.block ()).ran ++ (inFunction q).toList))
    (hrunning : v.running = (inFunction q).isSome)
    (hran' : v'.ran = messages ((q'.dataflow.block ()).ran ++ (inFunction q').toList))
    (hrunning' : v'.running = (inFunction q').isSome) : v.Runs v' := by
  cases HandlerSystem.step_cases hq with
  | @call n x hn hx =>
    have hin : inFunction q = none := by simp [inFunction, show q.handler () = .idle from hn]
    have hin' : inFunction { q.goto n .running with
        events := Function.update q.events n (q.events n ++ [.called x]) } = some x := by
      simp [inFunction, HandlerSystem.goto, ← hx]
    refine .begin (show v'.ran = v.ran ++ [x.item.1] from ?_) (by rw [hrunning, hin]; rfl)
      (by rw [hrunning', hin']; rfl)
    rw [hran', hin', hran, hin]
    simp [messages, HandlerSystem.goto]
  | @dataflow b t hin ht =>
    by_cases hproc : b = .process ()
    · subst hproc
      have hgrow := Dataflow.ran_process ht
      cases hx : (q.dataflow.block ()).processingTask.invoking with
      | some x =>
        -- the function object returns
        have hrun : q.handler () = .running := by simpa [HandlerSystem.inHandler, hx] using hin
        have hinq : inFunction q = some x := by rw [inFunction, if_pos hrun, hx]
        have hinq' : inFunction (q.moved (.process ()) t) = none := by
          simp [inFunction, HandlerSystem.moved, hx]
        refine .finish ?_ (by rw [hrunning, hinq]; rfl) (by rw [hrunning', hinq']; rfl)
        rw [hran', hinq', hran, hinq, HandlerSystem.moved_dataflow, hgrow, hx]
        simp
      | none =>
        have hidle : q.handler () = .idle := by
          have hev := hev ()
          by_contra hne
          rw [HandlerSystem.EventsOk, if_neg hne] at hev
          obtain ⟨x, hx', -⟩ := hev
          cases hx.symm.trans hx'
        have hinq : inFunction q = none := by simp [inFunction, hidle]
        have hinq' : inFunction (q.moved (.process ()) t) = none := by
          simp [inFunction, HandlerSystem.moved, hx, hidle]
        refine .same ?_ (by rw [hrunning', hrunning, hinq, hinq'])
        rw [hran', hinq', hran, hinq, HandlerSystem.moved_dataflow, hgrow, hx]
        simp
    · have hwork := Dataflow.work_of_ne ht hproc
      simp only [Block.work, Prod.mk.injEq] at hwork
      have hhandler : (q.moved b t).handler () = q.handler () := by
        cases b with
        | process n => exact absurd rfl hproc
        | advance m =>
          simp only [HandlerSystem.moved]
          rcases hserving with h | h <;> simp [h]
        | _ => rfl
      have hinq : inFunction (q.moved b t) = inFunction q := by
        rw [inFunction, inFunction, hhandler, HandlerSystem.moved_dataflow, hwork.2]
      refine .same ?_ (by rw [hrunning', hrunning, hinq])
      rw [hran', hran, hinq, HandlerSystem.moved_dataflow, hwork.1]
  | canAcceptInput | acceptInputAsync | complete | canAccepted | accepted | completed =>
    rcases ha with ha | ⟨b, ha⟩ <;> cases ha

end Queue

/-! ## The actor -/

/-- A step leaves the queue alone, or it is a step of the queue that the block of an actor takes. -/
theorem PolicyStep.actorCalls (hs : PolicyStep members s l s') (hg : s.PolicyUse l)
    (hcon : ∀ t, s.complete t ≠ .idle → s.block.state ≠ .created) :
    s'.actorQueue = s.actorQueue ∨ ∃ a,
      HandlerSystem.step (ActorPolicy.actorQueue members) s.actorQueue a = some s'.actorQueue ∧
        (a = .call () ∨ ∃ b, a = .dataflow b ∧ ActorCalls s.actorQueue.dataflow b) := by
  rcases hs.queue_cases with ⟨a, -, hq, ha⟩ | hsame
  · refine .inr ⟨a, hq, ?_⟩
    rcases ha with ha | rfl | ⟨t, rfl, ht, rfl⟩
    · cases a with
      | dataflow b =>
        refine .inr ⟨b, rfl, ?_⟩
        cases b with
        | start n => exact ha
        | acceptInputAsync n item => exact ha.1
        | runCall | process | runFaultThread => trivial
        | complete | setFaulted | advance => exact ha.elim
      | call n => exact .inl rfl
      | canAcceptInput | acceptInputAsync | complete | resume => exact ha.elim
    · exact .inr ⟨_, rfl, trivial⟩
    · exact .inr ⟨_, rfl, hcon t (by rw [ht]; simp), hg.1⟩
  · exact .inl hsame

/-- `OnCompleted()` that has ended has ended. -/
theorem PolicyStep.funcLog_grows (hs : PolicyStep members s l s') :
    s.completionTask.funcLog <+: s'.completionTask.funcLog := by
  cases hs with
  | queue | queueComplete | coroutine | accepted | refused | completeReturns =>
    exact List.prefix_refl _
  | advance hidle hb hq hs =>
    rcases (advanced_spec hs).completion with ⟨-, -, hstart⟩ | ⟨-, heq⟩
    · exact funcLog_step hstart
    · rw [heq]
  | starting hc =>
    have hrun : TaskSystem.step .function s.completionTask (.run none) = some _ := hc
    exact funcLog_step hrun
  | wait ht hc => exact funcLog_step hc
  | completion hl hc => exact funcLog_step hc

theorem view_moves (h : (policyMachine members T).Reachable PolicyUse s) (hg : s.PolicyUse l)
    (hs : s.step members l = some s') : s.view.Moves s'.view := by
  have hstep := step_cases hs
  obtain ⟨hh, hinv, hf⟩ := reachable_actorInv h
  have hclosed := completed_of_completed h (.single hg hs)
  have hcompleted : s.view.completed = true → s'.view.completed = true := by
    intro hc
    have hlog : s.completionTask.funcLog ≠ [] := by simpa [view] using hc
    have hlog' : s'.completionTask.funcLog ≠ [] := fun hnil =>
      hlog (List.prefix_nil.mp (hnil ▸ hstep.funcLog_grows))
    simpa [view] using hlog'
  rcases hstep.actorCalls hg (reachable_constructed h) with hsame | ⟨a, hq, ha⟩
  · have hblock : s'.block = s.block := by rw [block, hsame]; rfl
    exact ⟨.inl (by simp only [view, hblock]), .same (by simp only [view, hblock, hsame])
      (by simp only [view, hsame]), by simp [view, hblock], hclosed, hcompleted⟩
  · have hruns := runs_step hq (reachable_eventsInv (reachable_queue h)) (reachable_serving h)
      (ha.imp id fun hb => by
        obtain ⟨b, hb, -⟩ := hb
        exact ⟨b, hb⟩) s.view s'.view rfl rfl rfl rfl
    rcases ha with rfl | ⟨b, rfl, hcalls⟩
    · -- the block stays
      have hdata : s'.actorQueue.dataflow = s.actorQueue.dataflow := by
        cases HandlerSystem.step_dataflow hq with
        | inl hb => obtain ⟨b, hb, -⟩ := hb; cases hb
        | inr hb => exact hb.2
      have hblock : s'.block = s.block := by rw [block, hdata]; rfl
      exact ⟨.inl (by simp only [view, hblock]), hruns, by simp [view, hblock], hclosed,
        hcompleted⟩
    · have hb : s.actorQueue.dataflow.step (ActorPolicy.actorQueue members) b =
          some s'.actorQueue.dataflow := by
        rcases HandlerSystem.step_dataflow hq with ⟨b', hb', hs⟩ | ⟨hb', -⟩
        · cases hb'
          exact hs
        · cases hb'
      have hadded := Dataflow.added_step hb ()
      refine ⟨?_, hruns, hinv.closed_step hf hh rfl hcalls hb, hclosed, hcompleted⟩
      rcases hinv.pushed_cases hf rfl b with hnil | ⟨hopen, x, hx⟩
      · left
        rw [hnil, List.append_nil] at hadded
        exact congrArg messages hadded
      · refine .inr ⟨?_, x.item.1, ?_⟩
        · show s.block.completedTask.state.isCompleted = false
          by_contra hc
          rw [Bool.not_eq_false] at hc
          rw [(hinv.completedTask_eq hc).2] at hopen
          cases hopen
        · rw [hx] at hadded
          show messages (s'.actorQueue.dataflow.block ()).inputItems.added = _
          rw [hadded, messages_append]
          rfl

variable [Fintype T]

/-- `OnCompleted()` has not ended before `Completion()` of the queue is completed. -/
theorem completed_of_funcLog (h : (policyMachine members T).Reachable PolicyUse s)
    (hlog : s.completionTask.funcLog ≠ []) : s.block.completedTask.state.isCompleted := by
  by_contra hpending
  have htask := (reachable_completionInv h).task
  rw [if_neg hpending] at htask
  have hruns := (htask.before rfl).2.1
  have hpos := List.length_pos_iff.mpr hlog
  unfold TaskSystem.runs at hruns
  omega

theorem view_ok (h : (policyMachine members T).Reachable PolicyUse s) : s.view.Ok where
  ran := (ran_inFunction_added h).map _
  closed := by
    intro hc
    have hc' : s.block.completedTask.state.isCompleted := hc
    obtain ⟨-, hinv, hf⟩ := reachable_actorInv h
    have hr := reaches_under (reachable_queue h)
    obtain ⟨hdrain, -, -⟩ := Actors.reachable_actorInv rfl (fun _ _ hg => hg.1)
      (returning_of_answering (answering_actorQueue members)) hr
    have hfin : s.block.processingTask = .finished (.ok ()) := by
      refine hf.task.completed fun hnil => ?_
      rw [hnil] at hc'
      cases hc'
    have hin : inFunction s.actorQueue = none := by
      have hfin' : (s.actorQueue.dataflow.block ()).processingTask = .finished (.ok ()) := hfin
      simp [inFunction, hfin', Processing.invoking]
    have hran : s.block.ran = s.block.inputItems.added :=
      ran_eq_added (hdrain.mono fun _ _ hg => hg.2) hc'
    refine ⟨?_, by rw [view, hin]; rfl, by rw [view, hin, hran]; simp⟩
    show s.block.state.isClosed = true
    rw [show s.block.state = .stopped from (hinv.completedTask_eq hc').2]
    rfl
  completed := by
    intro hc
    refine completed_of_funcLog h fun hnil => ?_
    simp [view, hnil] at hc

/-- The actor as a mailbox: what is seen of it; its members while no function runs; a call of
    `Complete` that was accepted has returned after `OnCompleted()`, and a task of
    `ScheduleFunction` is completed after its function. -/
structure AsMailbox (s : PolicySystem Result S ε T)
    (b : Mailbox (ScheduledFunction Result S ε) S) : Prop where
  view : b.view = s.view
  members : b.running = false → b.members = s.block.nodeState.state
  returned : ∀ t, (t, true) ∈ s.returned → b.completed = true
  tasks : ∀ k c, s.actorQueue.dataflow.call k = some c → c.phase = .returned →
    (s.task k).state.isCompleted → c.item.1 ∈ b.ran.take b.ended

omit [DecidableEq T] [Fintype T] in
theorem accumulate_members (funcs : List (ScheduledFunction Result S ε)) (st : S) :
    (accumulate ScheduledFunction.answer funcs st).2 =
      funcs.foldl (fun st func => (func.answer st).2) st := by
  induction funcs generalizing st with
  | nil => rfl
  | cons func funcs ih => exact ih _

theorem asMailbox {b : Mailbox (ScheduledFunction Result S ε) S}
    (h : (policyMachine members T).Reachable PolicyUse s)
    (hb : (Mailbox.machine (fun (func : ScheduledFunction Result S ε) st => (func.answer st).2)
      members).Reachable Machine.Any b) (hview : b.view = s.view) : AsMailbox s b := by
  have hinv := Mailbox.reachable_inv hb
  have hreplied := (answeredBy h .refl).replied
  simp only [Mailbox.view, PolicySystem.view, Mailbox.View.mk.injEq] at hview
  obtain ⟨haccepted, hran, hrunning, hcompleting, hclosed, hcompleted⟩ := hview
  -- the functions that have ended
  have hended : b.ran.take b.ended = messages s.block.ran := by
    rw [Mailbox.ended, hran, hrunning]
    cases inFunction s.actorQueue with
    | none => simp
    | some x => simp [messages]
  refine ⟨by simp [Mailbox.view, PolicySystem.view, *], fun hidle => ?_, fun t ht => ?_,
    fun k c hk hret hc => ?_⟩
  · rw [hidle, eq_comm, Option.isSome_eq_false_iff, Option.isNone_iff_eq_none] at hrunning
    rw [hinv.members, hran, hrunning, Option.toList_none, List.append_nil, ← accumulate_members]
    exact hreplied.state.symm
  · rw [hcompleted]
    simpa using (reachable_completionInv h).wait.returned t ht
  · obtain ⟨r, hr⟩ := SchedulePc.exists_ended_of_completed hc
    have hfits := reachable_coroutines h k
    rw [hr] at hfits
    obtain ⟨d, hd, ⟨-, o, ho, -⟩ | ⟨e, he, -⟩⟩ := hfits
    · have hreply : (s.block.nodeState.reply k).state.isCompleted := by
        rw [ho]
        exact ended_completed o
      have hmem := mem_ran_of_completed (answering_actorQueue members) (reachable_queue h) hk hreply
      rw [hended]
      exact List.mem_map_of_mem (f := fun x => x.item.1) hmem
    · cases hk.symm.trans hd
      rw [hret] at he
      cases he

end PolicySystem

/-- An actor with a policy is a mailbox. -/
theorem policy_simulates_mailbox [Fintype T] (members : S) :
    (policyMachine members T).Simulates
      (Mailbox.machine (fun (func : ScheduledFunction Result S ε) st => (func.answer st).2) members)
      PolicySystem.PolicyUse Machine.Any PolicySystem.AsMailbox := by
  have hview : (policyMachine members T).Simulates
      (Mailbox.machine (fun (func : ScheduledFunction Result S ε) st => (func.answer st).2) members)
      PolicySystem.PolicyUse Machine.Any fun s b => b.view = s.view :=
    Mailbox.simulates PolicySystem.view members rfl (fun _ h => PolicySystem.view_ok h)
      fun _ _ _ h hg hs => PolicySystem.view_moves h hg hs
  have hall := hview.and fun _ _ h hb heq => PolicySystem.asMailbox h hb heq
  refine ⟨hall.init.2, fun s l s' b hs hb h hg hst => ?_⟩
  obtain ⟨b', hr, -, h'⟩ := hall.step s l s' b hs hb ⟨h.view, h⟩ hg hst
  exact ⟨b', hr, h'⟩

end AsyncCpp.Actors.ActorPolicy
