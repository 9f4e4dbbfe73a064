import AsyncCpp.Actors.PolicyRest

/-!
# `ScheduleFunction` and `Complete` of an actor with a policy

Results:
* `reachable_coroutines`: the coroutines of `ScheduleFunction` fit their calls of
  `AcceptInputAsync` and the tasks of their completion sources.
* `progress`: while a returned task is pending, a thread can go on.
* `policy_runs_in_order`: the functions run one at a time in scheduling order, the returned
  tasks end as the functions do, and `OnCompleted()` runs once, after them.
* `not_policy_runs_in_order`: with `INT_MAX` functions in the queue the next returned task
  throws, although its function does not.
-/

namespace AsyncCpp.DataFlow

variable {Node Item σ ε : Type*} [DecidableEq Node] {N : Network Node Item σ ε}

/-- A call that has ended stays as it is. -/
theorem Dataflow.call_kept {G : Dataflow Node Item σ ε → DataflowLabel Node Item ε → Prop}
    {s s' : Dataflow Node Item σ ε} (h₀ : (dataflowMachine N).Reachable G s)
    (h : (dataflowMachine N).Reaches G s s') {k : ℕ} {c : AcceptCall Node Item ε}
    (hk : s.call k = some c) (hc : c.phase.ended) : s'.call k = some c := by
  induction h with
  | refl => exact hk
  | tail hr hg hs ih =>
    cases calls_cases hs with
    | made n item =>
      have hlt := (reachable_callInv (h₀.trans hr)).lt_calls ih
      exact (Function.update_of_ne hlt.ne ..).trans ih
    | @ran j d b phase hd hb =>
      by_cases hkj : k = j
      · subst hkj
        cases ih.symm.trans hd
        cases hphase : c.phase with
        | returned | threw e =>
          rw [hphase] at hb
          cases hb
        | throwIfNotStarted | push | release | releasing =>
          rw [hphase] at hc
          cases hc
      · exact (Function.update_of_ne hkj ..).trans ih
    | kept hcall => rwa [hcall]

/-- A step of the network that the function does not wait in. -/
theorem HandlerSystem.step_of_dataflow {s : HandlerSystem Node Item σ ε}
    {a : DataflowLabel Node Item ε} {t : Dataflow Node Item σ ε} (hin : s.inHandler a = false)
    (ht : s.dataflow.step N a = some t) : s.step N (.dataflow a) = some (s.moved a t) := by
  have hrun : s.dataflow.terminated = false := by
    by_contra hterm
    simp [Dataflow.step, hterm] at ht
  simp [HandlerSystem.step, hrun, hin, ht]

end AsyncCpp.DataFlow

namespace AsyncCpp.Actors.ActorPolicy

open Interleaving Tasks DataFlow AsyncPrimitives

variable {Result S ε T : Type} [DecidableEq T] {members : S}

/-! ## The coroutines -/

namespace SchedulePc

variable {Item : Type} {call call' : Option (AcceptCall Unit Item ε)}
  {tcs tcs' : TaskSharedState (Option Result) ε} {pc pc' : SchedulePc Result ε}

/-- The body of the coroutine has ended with `r`: with what the task of its completion source
    yields, or with what `AcceptInputAsync` threw. -/
def EndsWith (call : Option (AcceptCall Unit Item ε)) (tcs : TaskSharedState (Option Result) ε)
    (r : Except (Exn ε) (Option Result)) : Prop :=
  ∃ c, call = some c ∧ (c.phase = .returned ∧ (∃ o, tcs = .ended o ∧ r = o.outcome) ∨
    ∃ e, c.phase = .threw e ∧ r = .error e)

/-- What the place of a coroutine says about its call of `AcceptInputAsync` and about the task
    of its completion source. -/
def Fits (call : Option (AcceptCall Unit Item ε)) (tcs : TaskSharedState (Option Result) ε) :
    SchedulePc Result ε → Prop
  | .accepting => True
  | .awaiting => ∃ c, call = some c ∧ c.phase = .returned
  | .finalSuspend r | .ended r => EndsWith call tcs r

omit [DecidableEq T] in
theorem Fits.kept (h : pc.Fits call tcs)
    (hcall : ∀ c, call = some c → c.phase.ended → call' = some c)
    (htcs : tcs.state.isCompleted → tcs' = tcs) : pc.Fits call' tcs' := by
  have hends : ∀ {r}, EndsWith call tcs r → EndsWith call' tcs' r := by
    rintro r ⟨c, hc, ⟨hret, o, ho, hr⟩ | ⟨e, he, hr⟩⟩
    · refine ⟨c, hcall c hc (by rw [hret]; rfl), .inl ⟨hret, o, ?_, hr⟩⟩
      rw [htcs (by rw [ho]; exact ended_completed o), ho]
    · exact ⟨c, hcall c hc (by rw [he]; rfl), .inr ⟨e, he, hr⟩⟩
  cases pc with
  | accepting => trivial
  | awaiting =>
    obtain ⟨c, hc, hret⟩ := h
    exact ⟨c, hcall c hc (by rw [hret]; rfl), hret⟩
  | finalSuspend r | ended r => exact hends h

/-- The coroutine goes on. -/
theorem Fits.step (h : pc.Fits call tcs) (htcs : tcs.state.isCompleted → ∃ o, tcs = .ended o)
    (hs : pc.step call tcs = some pc') : pc'.Fits call tcs := by
  cases pc with
  | accepting =>
    simp only [SchedulePc.step] at hs
    split at hs <;> cases hs
    · exact ⟨_, rfl, rfl⟩
    · exact ⟨_, rfl, .inr ⟨_, rfl, rfl⟩⟩
  | awaiting =>
    obtain ⟨c, hc, hret⟩ := h
    simp only [SchedulePc.step] at hs
    split_ifs at hs with hcompleted
    obtain ⟨o, rfl⟩ := htcs hcompleted
    rw [yields_outcome] at hs
    cases hr : o.outcome <;> simp only [hr, yields] at hs <;> cases hs <;>
      exact ⟨c, hc, .inl ⟨hret, o, rfl, hr.symm⟩⟩
  | finalSuspend r =>
    cases hs
    exact h
  | ended r => cases hs

/-- The coroutine can go on where its call has ended and the task it awaits is completed. -/
theorem step_isSome (h : pc.Fits call tcs) {c : AcceptCall Unit Item ε} (hc : call = some c)
    (hended : c.phase.ended) (htcs : ∃ o, tcs = .ended o) :
    pc.shared.state.isCompleted ∨ (pc.step call tcs).isSome := by
  subst hc
  cases pc with
  | accepting =>
    obtain ⟨node, item, phase⟩ := c
    cases phase with
    | returned | threw e => exact .inr rfl
    | throwIfNotStarted | push | release | releasing => cases hended
  | awaiting =>
    obtain ⟨o, rfl⟩ := htcs
    right
    simp only [SchedulePc.step, ended_completed, if_true, yields_outcome]
    cases o.outcome <;> rfl
  | finalSuspend r => exact .inr rfl
  | ended r => exact .inl (promise_published r).1

omit [DecidableEq T] in
/-- A returned task is completed when its coroutine has ended. -/
theorem exists_ended_of_completed (h : pc.shared.state.isCompleted) : ∃ r, pc = .ended r := by
  cases pc with
  | accepting | awaiting => cases h
  | finalSuspend r =>
    rw [shared, promise_not_completed] at h
    cases h
  | ended r => exact ⟨r, rfl⟩

end SchedulePc

namespace PolicySystem

variable {s s' s₀ : PolicySystem Result S ε T} {l : PolicyLabel Result S ε T}

theorem answeredBy (h₀ : (policyMachine members T).Reachable PolicyUse s₀)
    (h : (policyMachine members T).Reaches PolicyUse s₀ s) :
    AnsweredBy (ActorPolicy.actorQueue members) ScheduledFunction.answer members s₀.actorQueue
      s.actorQueue :=
  answeredBy_of_reachable (answering_actorQueue members) (reachable_queue h₀)
    ((reaches_queue (X := fun _ _ => True) (fun _ _ hg => ⟨hg, fun _ _ _ _ => trivial⟩) h₀
      h).mono fun _ _ => Under.mono fun _ _ hg => hg.1)

/-- The task of a completion source that is completed has ended with an answer. -/
theorem exists_ended (h : (policyMachine members T).Reachable PolicyUse s) {k : ℕ}
    (hc : (s.block.nodeState.reply k).state.isCompleted) :
    ∃ o, s.block.nodeState.reply k = .ended o := by
  have hreplied : RepliedBy ScheduledFunction.answer members s.block.ran s.block.nodeState :=
    (answeredBy h .refl).replied
  by_cases hk : k ∈ sources s.block.ran
  · obtain ⟨x, hx, rfl⟩ := List.mem_map.mp hk
    obtain ⟨o, ho⟩ := hreplied.exists_ended hx
    exact ⟨o, ho⟩
  · rw [hreplied.pending k hk] at hc
    cases hc

/-- The coroutines fit their calls of `AcceptInputAsync` and the tasks of their completion
    sources. -/
theorem reachable_coroutines (h : (policyMachine members T).Reachable PolicyUse s) :
    ∀ k, (s.coroutine k).Fits (s.actorQueue.dataflow.call k) (s.block.nodeState.reply k) := by
  refine h.invariant_with (Q := (policyMachine members T).Reachable PolicyUse)
    (I := fun s => ∀ k, (s.coroutine k).Fits (s.actorQueue.dataflow.call k)
      (s.block.nodeState.reply k)) (fun _ hr => hr) (fun _ => trivial) ?_
  intro s l s' hr hi hg hs k
  have hstep := step_cases hs
  have hq := hstep.askUse (X := fun _ _ => True) hg (fun _ _ _ _ => trivial)
    (reachable_constructed hr)
  -- the queue leaves what has ended
  have hkept : ∀ {pc : SchedulePc Result ε},
      pc.Fits (s.actorQueue.dataflow.call k) (s.block.nodeState.reply k) →
      pc.Fits (s'.actorQueue.dataflow.call k) (s'.block.nodeState.reply k) := fun hpc =>
    hpc.kept (fun c hc hended => Dataflow.call_kept (reachable_any (reachable_queue hr))
        (reaches_dataflow (fun _ _ _ _ _ => trivial) hq) hc hended)
      ((answeredBy hr (.single hg hs)).once k)
  cases hstep with
  | @coroutine j pc hpc =>
    by_cases hkj : k = j
    · subst hkj
      simp only [Function.update_self]
      exact (hi k).step (exists_ended hr) hpc
    · simp only [Function.update_of_ne hkj]
      exact hi k
  | advance hidle hb hq' hs =>
    rw [(advanced_spec hs).coroutine]
    exact hkept (hi k)
  | queue | queueComplete | starting | accepted | refused | wait | completeReturns | completion =>
    exact hkept (hi k)

/-! ## Progress -/

/-- The function of the queue is called, or not: it makes no calls of its own. -/
theorem reachable_serving (h : (policyMachine members T).Reachable PolicyUse s) :
    s.actorQueue.handler () = .idle ∨ s.actorQueue.handler () = .running := by
  refine h.invariant (I := fun s => s.actorQueue.handler () = .idle ∨
    s.actorQueue.handler () = .running) (.inl rfl) fun s l s' hi _ hs => ?_
  rcases (step_cases hs).queue_cases with ⟨a, -, hq, ha⟩ | hq
  · generalize s'.actorQueue = q at hq
    cases HandlerSystem.step_cases hq with
    | @dataflow b t hin ht =>
      cases b with
      | process n =>
        simp only [HandlerSystem.moved]
        split
        · exact .inl (Function.update_self () .idle s.actorQueue.handler)
        · exact hi
      | advance n =>
        simp only [HandlerSystem.moved]
        split_ifs
        · exact .inr rfl
        · exact hi
      | _ => exact hi
    | call =>
      right
      simp [HandlerSystem.goto]
    | canAcceptInput | acceptInputAsync | complete | canAccepted | accepted | completed =>
      rcases ha with ha | ha | ⟨-, -, -, ha⟩
      · exact ha.elim
      · cases ha
      · cases ha
  · rwa [hq]

omit [DecidableEq T] in
/-- A step of the network of the queue, taken by the queue. -/
theorem queueStep_isSome {a : DataflowLabel Unit (ScheduledFunction Result S ε × ℕ) ε}
    (hin : s.actorQueue.inHandler a = false)
    (ha : (s.actorQueue.dataflow.step (ActorPolicy.actorQueue members) a).isSome) :
    (HandlerSystem.step (ActorPolicy.actorQueue members) s.actorQueue (.dataflow a)).isSome := by
  obtain ⟨t, ht⟩ := Option.isSome_iff_exists.mp ha
  rw [HandlerSystem.step_of_dataflow hin ht]
  rfl

theorem process_isSome (h : (policyMachine members T).Reachable PolicyUse s)
    (ha : (s.actorQueue.dataflow.step (ActorPolicy.actorQueue members) (.process ())).isSome) :
    (s.step members .call).isSome ∨ (s.step members .process).isSome := by
  obtain ⟨-, hinv, -⟩ := reachable_actorInv h
  by_cases hin : s.actorQueue.inHandler (.process ()) = false
  · exact .inr ((Option.isSome_map ..).trans (queueStep_isSome hin ha))
  · -- the function object is to be called
    left
    simp only [HandlerSystem.inHandler, Bool.not_eq_false, Bool.and_eq_true, decide_eq_true_eq]
      at hin
    obtain ⟨x, hx⟩ := Option.isSome_iff_exists.mp hin.1
    have hidle := (reachable_serving h).resolve_right hin.2
    simp [step, queueStep, HandlerSystem.step, hinv.running, hidle, hx]

variable [Fintype T]

theorem advance_isSome (h : (policyMachine members T).Reachable PolicyUse s)
    (ha : (s.actorQueue.dataflow.step (ActorPolicy.actorQueue members) (.advance ())).isSome) :
    ∃ l : PolicyLabel Result S ε T, goesOn l = true ∧ (s.step members l).isSome := by
  have hinv := reachable_completionInv h
  by_cases hidle : s.completionTask.pc none = .idle
  · refine ⟨.advance, rfl, ?_⟩
    have hq := queueStep_isSome rfl ha
    obtain ⟨q, hq⟩ := Option.isSome_iff_exists.mp hq
    have hb : s.block.advance.isSome := by
      by_contra hnone
      rw [Option.not_isSome_iff_eq_none] at hnone
      unfold Dataflow.step at ha
      split_ifs at ha
      · cases ha
      · simp only [Dataflow.advance] at ha
        rw [show (s.actorQueue.dataflow.block ()).advance = none from hnone] at ha
        cases ha
    obtain ⟨⟨b, next⟩, hb⟩ := Option.isSome_iff_exists.mp hb
    simp only [step, if_pos hidle, hb, hq, Option.bind_some, advanced]
    split_ifs with hnew
    · have htask := hinv.task
      rw [if_neg hnew.2] at htask
      obtain ⟨c, hc, -⟩ := htask.start
      simp [hc]
    · rfl
  · obtain ⟨u, hu⟩ := hinv.task.progress hidle
    cases u with
    | none =>
      exact ⟨.starting, rfl, (Option.isSome_map ..).trans (Option.isSome_iff_ne_none.mpr hu)⟩
    | some t =>
      refine ⟨.completion (.run t), rfl, ?_⟩
      simp only [step, allows, if_true, TaskLabel.map, TaskSystem.step, Option.isSome_map]
      exact Option.isSome_iff_ne_none.mpr hu

/-- While the task that a call of `ScheduleFunction` returned is pending, a thread can go on. -/
theorem progress (h : (policyMachine members T).Reachable PolicyUse s) {k : ℕ}
    {c : AcceptCall Unit (ScheduledFunction Result S ε × ℕ) ε}
    (hk : s.actorQueue.dataflow.call k = some c) (hret : c.phase = .returned) :
    (s.task k).state.isCompleted ∨
      ∃ l : PolicyLabel Result S ε T, goesOn l = true ∧ (s.step members l).isSome := by
  rcases (answeredBy h .refl).progress k c hk hret with hreply | ⟨a, ha, hs⟩
  · rcases SchedulePc.step_isSome (reachable_coroutines h k) hk (by rw [hret]; rfl)
      (exists_ended h hreply) with hc | hs
    · exact .inl hc
    · exact .inr ⟨.coroutine k, rfl, (Option.isSome_map ..).trans hs⟩
  · right
    cases a with
    | runCall j => exact ⟨.accept j, rfl, (Option.isSome_map ..).trans (queueStep_isSome rfl hs)⟩
    | advance n => exact advance_isSome h hs
    | process n =>
      rcases process_isSome h hs with hs | hs
      · exact ⟨.call, rfl, hs⟩
      · exact ⟨.process, rfl, hs⟩
    | runFaultThread n =>
      exact ⟨.runFaultThread, rfl, (Option.isSome_map ..).trans (queueStep_isSome rfl hs)⟩
    | start | complete | setFaulted | acceptInputAsync => cases ha

omit [Fintype T] in
/-- A coroutine that is past `AcceptInputAsync` has called it. -/
theorem pastAccept_of_reachable (h : (policyMachine members T).Reachable PolicyUse s) :
    PastAccept members s where
  queue := reachable_any (reachable_queue h)
  called k hk := by
    have hfits := reachable_coroutines h k
    cases hpc : s.coroutine k with
    | accepting => rfl
    | awaiting | finalSuspend r | ended r =>
      rw [hpc] at hfits
      obtain ⟨c, hc, -⟩ := hfits
      cases hk.symm.trans hc

/-! ## The returned tasks -/

omit [Fintype T] in
/-- A returned task that is completed has ended as its function, on the members that the
    functions before it left. -/
theorem task_ended (h : (policyMachine members T).Reachable PolicyUse s) {k : ℕ}
    {c : AcceptCall Unit (ScheduledFunction Result S ε × ℕ) ε}
    (hk : s.actorQueue.dataflow.call k = some c) (hret : c.phase = .returned)
    (hc : (s.task k).state.isCompleted) :
    ∃ o, (⟨.user k, c.item⟩, o) ∈ s.block.ran.zip
        (accumulate ScheduledFunction.answer (messages s.block.ran) members).1 ∧
      (s.task k).resultOutcome = yields o.outcome := by
  obtain ⟨r, hr⟩ := SchedulePc.exists_ended_of_completed hc
  have hfits := reachable_coroutines h k
  rw [hr] at hfits
  obtain ⟨c', hc', ⟨-, o, ho, rfl⟩ | ⟨e, he, -⟩⟩ := hfits
  · rw [block] at ho
    have hran : ⟨.user k, c.item⟩ ∈ s.block.ran :=
      mem_ran_of_completed (answering_actorQueue members) (reachable_queue h) hk
        (by rw [ho]; exact ended_completed o)
    obtain ⟨o', hmem, ho'⟩ := (answeredBy h .refl).replied.exists_answer hran
    have hsource := reachable_source (fun _ _ hg => hg.2) (reaches_under (reachable_queue h)) k c hk
    refine ⟨o', hmem, ?_⟩
    rw [task, hr, ← yields_outcome, ← ho', hsource, ho, yields_outcome]
    exact (promise_published o.outcome).2
  · cases hk.symm.trans hc'
    cases hret.symm.trans he

omit [Fintype T] in
/-- A returned task that is completed stays as it is. -/
theorem task_kept {G : PolicySystem Result S ε T → PolicyLabel Result S ε T → Prop}
    (h : (policyMachine members T).Reaches G s₀ s) {k : ℕ} (hc : (s₀.task k).state.isCompleted) :
    s.task k = s₀.task k := by
  obtain ⟨r, hr⟩ := SchedulePc.exists_ended_of_completed hc
  have hs : s.coroutine k = .ended r := by
    refine h.preserves (I := fun s => s.coroutine k = .ended r) ?_ hr
    intro s l s' hi _ hs
    cases step_cases hs with
    | @coroutine j pc hpc =>
      by_cases hkj : k = j
      · subst hkj
        rw [hi] at hpc
        cases hpc
      · exact (Function.update_of_ne hkj ..).trans hi
    | advance hidle hb hq hs => rwa [(advanced_spec hs).coroutine]
    | queue | queueComplete | starting | accepted | refused | wait | completeReturns | completion =>
      exact hi
  rw [task, task, hs, hr]

/-! ## Runs -/

/-- The run went through `s₀` to `s`. The functions that ran left their results and the members
    as one after the other would, and a call of a function ended before the next one began. If
    every call of `ScheduleFunction` was made after the calls before it had returned, the
    functions ran in the order of the calls. A returned task that is completed has ended as its
    function and stays so; while it is pending, a thread can go on, and without new calls the
    threads go on for a bounded number of steps. `OnCompleted()` is called at most once, when the
    functions of all calls have run, and has ended when a call of `Complete` has returned `true`. -/
structure PolicyHolds (members : S) (s₀ s : PolicySystem Result S ε T) : Prop where
  answered : AnsweredBy (ActorPolicy.actorQueue members) ScheduledFunction.answer members
    s₀.actorQueue s.actorQueue
  inTurn : (policyMachine members T).Reachable (fun s l => s.PolicyUse l ∧ s.OnQueue InTurn l) s →
    (∀ k c, s.actorQueue.dataflow.call k = some c → c.phase.outside) →
      s.block.ran <+: told s.actorQueue.dataflow ∧
        (s.block.completedTask.state.isCompleted → s.block.ran = told s.actorQueue.dataflow)
  tasks : ∀ k c, s.actorQueue.dataflow.call k = some c → c.phase = .returned →
    (s.task k).state.isCompleted →
      ∃ o, (⟨.user k, c.item⟩, o) ∈ s.block.ran.zip
          (accumulate ScheduledFunction.answer (messages s.block.ran) members).1 ∧
        (s.task k).resultOutcome = yields o.outcome
  kept : ∀ k, (s₀.task k).state.isCompleted → s.task k = s₀.task k
  progress : ∀ k c, s.actorQueue.dataflow.call k = some c → c.phase = .returned →
    (s.task k).state.isCompleted ∨
      ∃ l : PolicyLabel Result S ε T, goesOn l = true ∧ (s.step members l).isSome
  rests : ∀ (ls : List (PolicyLabel Result S ε T)) t, (∀ l ∈ ls, goesOn l = true) →
    (policyMachine members T).run s ls = some t → ls.length ≤ s.todo
  once : s.completionTask.calls ≤ 1
  after : 0 < s.completionTask.calls → Done s₀.actorQueue s.actorQueue
  returned : ∀ t, (t, true) ∈ s.returned → s.completionTask.funcLog ≠ []

theorem policyHolds_of_reachable (h₀ : (policyMachine members T).Reachable PolicyUse s₀)
    (h : (policyMachine members T).Reaches PolicyUse s₀ s) : PolicyHolds members s₀ s := by
  have hs : (policyMachine members T).Reachable PolicyUse s := h₀.trans h
  have hanswered := answeredBy h₀ h
  have hinv := reachable_completionInv hs
  have hcalls := s.completionTask.calls_le_runs
  refine ⟨hanswered, fun hturn hout => ?_, fun k c hk hret hc => task_ended hs hk hret hc,
    fun k hc => task_kept h hc, fun k c hk hret => PolicySystem.progress hs hk hret,
    fun ls t hown hrun => length_le_todo (pastAccept_of_reachable hs) hown hrun, ?_,
    fun hpos => ?_, hinv.wait.returned⟩
  · have hqueue := reaches_queue (X := InTurn) (fun _ _ hg => hg) .init hturn
    exact hanswered.inTurn hqueue hout
  · have honce := hinv.task.ok.once
    omega
  · refine (hanswered.done ?_).1
    by_contra hpending
    -- nobody has called `Start()` of the continuation task
    have htask := hinv.task
    rw [block, if_neg hpending] at htask
    have hruns := (htask.before rfl).2.1
    omega

end PolicySystem

/-- The functions run one at a time in scheduling order, each returned task ends as its function
    does, `OnCompleted()` runs once, after them, and before an accepted `Complete()` returns. A
    refused one changes nothing. -/
theorem policy_runs_in_order [Fintype T] (members : S) :
    (∀ s₀ s : PolicySystem Result S ε T, (policyMachine members T).Reachable PolicySystem.PolicyUse s₀ →
      (policyMachine members T).Reaches PolicySystem.PolicyUse s₀ s →
        PolicySystem.PolicyHolds members s₀ s) ∧
    ∀ (s s' : PolicySystem Result S ε T) (t : T),
      (policyMachine members T).step s (.complete t false) = some s' →
        s' = { s with returned := s.returned ++ [(t, false)] } := by
  refine ⟨fun s₀ s h₀ h => PolicySystem.policyHolds_of_reachable h₀ h, fun s s' t hs => ?_⟩
  have hstep : PolicySystem.PolicyStep members s (.complete t false) s' :=
    PolicySystem.step_cases hs
  cases hstep with
  | refused ht =>
    simp only [PolicySystem.mayCall, Bool.and_eq_true, decide_eq_true_eq] at ht
    simp only [PolicySystem.returns, PolicySystem.goto, ← ht.1.2, Function.update_eq_self]
  | queue hl => cases hl

namespace PolicySystem

/-- `PolicyUse`, computed. -/
def policyUse (s : PolicySystem Result S ε T) (l : PolicyLabel Result S ε T) : Bool :=
  match s.queueLabel l with
  | none => true
  | some a => under inUse s.actorQueue a

omit [DecidableEq T] in
theorem policyUse_of_eq_true {s : PolicySystem Result S ε T} {l : PolicyLabel Result S ε T}
    (hcalls : s.actorQueue.dataflow.CallInv) (h : s.policyUse l = true) : s.PolicyUse l := by
  constructor
  · cases l with
    | queueComplete t => exact (actorUse_of_inUse (a := .complete ()) hcalls h).1.2
    | _ => trivial
  · intro a b hl hb
    simp only [policyUse, hl, under, hb] at h
    exact (actorUse_of_inUse hcalls h).2

/-- A run of labels that meet the guard. -/
theorem reaches_of_runWhile {s₀ s : PolicySystem Result S ε T}
    (h₀ : (policyMachine members T).Reachable PolicyUse s₀) (ls : List (PolicyLabel Result S ε T))
    (h : (policyMachine members T).runWhile policyUse s₀ ls = some s) :
    (policyMachine members T).Reaches PolicyUse s₀ s := by
  refine (Machine.Reaches.of_runWhile (fun _ _ hl => hl) ls h).preserves
    (I := fun t => (policyMachine members T).Reaches PolicyUse s₀ t) (fun t l t' ht hl hs => ?_)
    .refl
  have hcalls := reachable_callInv (reachable_any (reachable_queue (h₀.trans ht)))
  exact ht.tail (policyUse_of_eq_true hcalls hl) hs

end PolicySystem

/-- A function that changes the members and throws. -/
def failing : ScheduledFunction ℕ ℕ Unit := .value fun st => (.error (.user true ()), st + 1)

def doubling : ScheduledFunction ℕ ℕ Unit := .value fun st => (.ok (2 * st), st)

/-- The first function is scheduled and runs. -/
def firstRun : List (PolicyLabel ℕ ℕ Unit Bool) :=
  [PolicyLabel.start, .advance, .scheduleFunction failing] ++
    List.replicate 3 (PolicyLabel.accept 0) ++ [PolicyLabel.coroutine 0] ++
    List.replicate 4 PolicyLabel.process ++ [PolicyLabel.call, .process, .coroutine 0, .coroutine 0]

/-- The second one is scheduled. `CanCompleteNow()` refuses a `Complete()` and accepts another one,
    whose thread waits while the function and `OnCompleted()` run. Then a second thread calls
    `Complete()`. -/
def secondRun : List (PolicyLabel ℕ ℕ Unit Bool) :=
  [PolicyLabel.scheduleFunction doubling] ++ List.replicate 3 (PolicyLabel.accept 1) ++
    [PolicyLabel.coroutine 1, .complete true false, .complete true true, .queueComplete true] ++
    List.replicate 4 PolicyLabel.advance ++ List.replicate 4 PolicyLabel.process ++
    [PolicyLabel.call, .process, .coroutine 1, .coroutine 1, .process, .process] ++
    [PolicyLabel.advance, .starting, .starting, .advance, .wait true] ++
    List.replicate 2 (PolicyLabel.completion (.run true)) ++
    [PolicyLabel.completion (.body false)] ++
    List.replicate 2 (PolicyLabel.completion (.run false)) ++
    [PolicyLabel.completion (.call false (.ok ()))] ++
    List.replicate 4 (PolicyLabel.completion (.run false)) ++
    List.replicate 2 (PolicyLabel.completion (.run true)) ++
    [PolicyLabel.completeReturns true, .complete false true, .queueComplete false, .wait false,
      .completion (.run false), .completeReturns false]

theorem policy_runs_in_order_twice :
    ∃ s₀ s₁ s : PolicySystem ℕ ℕ Unit Bool, PolicySystem.PolicyHolds 10 s₀ s ∧
      (s₀.task 0).resultOutcome = .error (some (.user true ())) ∧
      (s.task 1).resultOutcome = .ok (some (some 22)) ∧ s.completionTask.funcLog = [.ok ()] ∧
      s.returned = [(true, false), (true, true), (false, true)] ∧
      (policyMachine 10 Bool).step s₀ (.complete true false) = some s₁ ∧
      s₁ = { s₀ with returned := s₀.returned ++ [(true, false)] } := by
  obtain ⟨s₀, hrun₀, htask₀⟩ : ∃ s₀, (policyMachine 10 Bool).runWhile PolicySystem.policyUse
      (policyMachine 10 Bool).init firstRun = some s₀ ∧
        (s₀.task 0).resultOutcome = .error (some (.user true ())) :=
    ⟨_, rfl, rfl⟩
  obtain ⟨s, hrun, htask, hlog, hreturned⟩ : ∃ s, (policyMachine 10 Bool).runWhile
      PolicySystem.policyUse s₀ secondRun = some s ∧
        (s.task 1).resultOutcome = .ok (some (some 22)) ∧ s.completionTask.funcLog = [.ok ()] ∧
        s.returned = [(true, false), (true, true), (false, true)] := by
    cases hrun₀
    exact ⟨_, rfl, rfl, rfl, rfl⟩
  obtain ⟨s₁, hrefused⟩ :
      ∃ s₁, (policyMachine 10 Bool).step s₀ (.complete true false) = some s₁ := by
    cases hrun₀
    exact ⟨_, rfl⟩
  have h₀ := PolicySystem.reaches_of_runWhile .init _ hrun₀
  have h := PolicySystem.reaches_of_runWhile h₀ _ hrun
  exact ⟨s₀, s₁, s, (policy_runs_in_order 10).1 s₀ s h₀ h, htask₀, htask, hlog, hreturned, hrefused,
    (policy_runs_in_order 10).2 s₀ s₁ true hrefused⟩

/-! ## A full queue -/

namespace PolicySystem

/-- The queue holds `count` functions. Nobody is in it, and its processing task is not
    scheduled. -/
structure Filled (count : ℤ) (s : PolicySystem Result S ε T) : Prop where
  running : s.actorQueue.dataflow.terminated = false
  state : s.block.state = .started
  stateMutex : s.block.stateMutex = none
  completedBy : s.block.completedBy = []
  items : ∃ xs, s.block.inputItems.Stocked count xs
  coroutine : s.coroutine = fun _ => .accepting

variable {count : ℤ} {s : PolicySystem Result S ε T}

/-- A call of `ScheduleFunction` that nobody interrupts, up to its `co_await`. -/
theorem Filled.exists_scheduled (h : Filled count s) (members : S)
    (func : ScheduledFunction Result S ε) :
    ∃ s' k, (policyMachine members T).Reaches ScheduledBefore s s' ∧
      s'.actorQueue.dataflow.call k =
        some ⟨(), (func, k), if count = intMax then .threw .semaphoreFull else .returned⟩ ∧
      Filled (if count = intMax then intMax else count + 1) s' := by
  obtain ⟨xs, hq⟩ := h.items
  have hready : s.block.Ready := ⟨h.state, h.stateMutex, hq.toStill⟩
  have hfull : s.block.full ↔ count = intMax := by
    rw [Block.full, hq.count, hq.maxCount]
  obtain ⟨t₀, t₁, t₂, h0, h1, h2, h3⟩ :=
    Dataflow.accept_steps (N := ActorPolicy.actorQueue members) h.running hready
      (func, s.actorQueue.dataflow.calls)
  have hschedule : (policyMachine members T).step s (.scheduleFunction func) =
      some { s with actorQueue := { s.actorQueue with dataflow := t₀ } } := by
    have hcreated : s.block.state ≠ .created := by rw [h.state]; simp
    refine (if_pos hcreated).trans ?_
    rw [queueStep, HandlerSystem.step_of_dataflow (a := .acceptInputAsync () _) rfl h0]
    rfl
  have haccept : ∀ {t t' : Dataflow Unit (ScheduledFunction Result S ε × ℕ)
        (ReplyState (Option Result) S ε) ε} {k : ℕ},
      (dataflowMachine (ActorPolicy.actorQueue members)).step t (.runCall k) = some t' →
        (policyMachine members T).step { s with actorQueue := { s.actorQueue with dataflow := t } }
          (.accept k) = some { s with actorQueue := { s.actorQueue with dataflow := t' } } := by
    intro t t' k ht
    exact congrArg (Option.map _) (HandlerSystem.step_of_dataflow
      (s := { s.actorQueue with dataflow := t }) (a := .runCall k) rfl ht)
  refine ⟨_, s.actorQueue.dataflow.calls, .head hschedule trivial <| .head (haccept h1) trivial <|
    .head (haccept h2) trivial <| .single (a := .accept _) trivial (haccept h3), ?_, ?_⟩
  · refine (Function.update_self ..).trans ?_
    have hphase :
        s.block.putPhase = if count = intMax then .threw .semaphoreFull else .returned := by
      simp only [Block.putPhase, hfull]
    exact congrArg (fun phase => some (AcceptCall.mk () _ phase)) hphase
  · refine ⟨h.running, h.state, h.stateMutex, h.completedBy, ?_, h.coroutine⟩
    split_ifs with hc
    · subst hc
      exact ⟨_, hq.put_full _⟩
    · exact ⟨_, hq.put hc _⟩

theorem exists_filled (k : ℕ) (hk : k ≤ intMax) : ∃ s : PolicySystem ℕ Unit Empty Unit,
    (policyMachine () Unit).Reachable ScheduledBefore s ∧ Filled k s := by
  induction k with
  | zero =>
    refine ⟨_, (Machine.Reaches.single (a := .start) trivial rfl).tail (a := .advance) trivial rfl,
      rfl, rfl, rfl, rfl, ⟨[], ?_⟩, rfl⟩
    exact ⟨⟨rfl, rfl⟩, rfl, rfl, fun _ => rfl, rfl, fun _ _ => rfl⟩
  | succ k ih =>
    obtain ⟨s, hr, h⟩ := ih (by omega)
    obtain ⟨s', -, hr', -, h'⟩ := h.exists_scheduled () (.value fun st => (.ok 7, st))
    rw [if_neg (by omega)] at h'
    exact ⟨s', hr.trans hr', by exact_mod_cast h'⟩

end PolicySystem

/-- With `INT_MAX` functions in the queue the function of the next call is put into the queue,
    and the call returns a task that throws. -/
theorem not_policy_runs_in_order :
    ∃ (s : PolicySystem ℕ Unit Empty Unit) (k : ℕ)
      (c : AcceptCall Unit (ScheduledFunction ℕ Unit Empty × ℕ) Empty),
      (policyMachine () Unit).Reachable PolicySystem.ScheduledBefore s ∧
      s.block.completedBy = [] ∧ s.actorQueue.dataflow.call k = some c ∧
      c.item.1.answer () = (.value (some 7), ()) ∧ (s.task k).state.isCompleted ∧
      (s.task k).resultOutcome = .error (some .semaphoreFull) := by
  obtain ⟨s₀, hr₀, h₀⟩ := PolicySystem.exists_filled intMax.toNat (by decide)
  have hfull : PolicySystem.Filled intMax s₀ := h₀
  obtain ⟨s₁, k, hr₁, hcall, h₁⟩ := hfull.exists_scheduled () (.value fun st => (.ok 7, st))
  rw [if_pos rfl] at hcall
  -- `AcceptInputAsync` throws in the coroutine, which ends with the exception
  have hthrown : (policyMachine () Unit).step s₁ (.coroutine k) = some { s₁ with
      coroutine := Function.update s₁.coroutine k (.finalSuspend (.error .semaphoreFull)) } := by
    simp [policyMachine, PolicySystem.step, h₁.coroutine, SchedulePc.step, hcall]
  have hended : (policyMachine () Unit).step { s₁ with
      coroutine := Function.update s₁.coroutine k (.finalSuspend (.error .semaphoreFull)) }
      (.coroutine k) = some { s₁ with
        coroutine := Function.update s₁.coroutine k (.ended (.error .semaphoreFull)) } := by
    simp [policyMachine, PolicySystem.step, SchedulePc.step]
  have hreach := ((hr₀.trans hr₁).tail (a := PolicyLabel.coroutine k) trivial hthrown).tail
    (a := PolicyLabel.coroutine k) trivial hended
  refine ⟨_, k, _, hreach, h₁.completedBy, hcall, rfl, ?_⟩
  simp only [PolicySystem.task, Function.update_self]
  exact promise_published _

end AsyncCpp.Actors.ActorPolicy
