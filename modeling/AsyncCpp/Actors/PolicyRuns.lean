import AsyncCpp.Actors.ActorPolicy

/-!
# Runs of an actor with a policy

In the runs of this module the functions scheduled before the first `Complete()` that
`CanCompleteNow()` accepts have been accepted by the queue when it enters the queue.

Results:
* `reaches_queue`: what happens at the queue is a run of the block of an actor.
* `reachable_completionInv`: `OnCompleted()` is called when `Completion()` of the queue is
  completed, and an accepted call of `Complete` returns after it.
-/

namespace AsyncCpp.DataFlow

open AsyncPrimitives Tasks

variable {Node Item σ ε : Type*} {N : Network Node Item σ ε}

/-- A block stays past `Start`. -/
theorem Block.closed_ne_created :
    Closed N (fun _ _ => True) fun _ (b : Block Node Item σ ε) => b.state ≠ .created where
  start h hs := by rw [(Block.start_eq hs).1]; exact h
  completeCommon {n b b' caller e r} h hs := by
    unfold Block.completeCommon at hs
    split at hs
    · cases hs
    · simp only at hs
      split_ifs at hs
      · cases hs
        exact h
      · split at hs <;> cases hs
        · exact h
        · exact h
        · nofun
  advance {n b b' r} h hs := by
    cases Block.advance_cases hs with
    | opened => nofun
    | @waited caller e r => cases r <;> nofun
    | _ => exact h
  resumed h := h
  throwing h _ := h
  process {n b b'} h hs := by
    have hst : b'.state = b.state := congrArg Prod.fst (Block.process_calls hs)
    rwa [hst]
  asked h _ _ := h
  offered h _ := h
  accept h _ hs := by rw [Block.acceptInputAsync_eq hs]; exact h
  faultThread h := h

variable [DecidableEq Node] {s s' : Dataflow Node Item σ ε} {a : DataflowLabel Node Item ε}

/-- `Completion()` is completed by the threads that hold a `_stateMutex`. -/
theorem Dataflow.completedTask_step (hs : s.step N a = some s') (ha : ∀ n, a ≠ .advance n)
    (m : Node) : (s'.block m).completedTask = (s.block m).completedTask := by
  have hcomplete : ∀ {t t' : Dataflow Node Item σ ε} {n : Node} {caller : Caller Node}
      {e : Option (Exn ε)}, t.completeCommon n caller e = some t' →
        (t'.block m).completedTask = (t.block m).completedTask := by
    intro t t' n caller e ht
    obtain ⟨⟨b, r⟩, hb, rfl⟩ := Option.map_eq_some_iff.mp ht
    rw [reply_congr (f := Block.completedTask) fun _ _ => rfl]
    exact set_congr (f := Block.completedTask) (by rw [Block.completeCommon_eq hb]) m
  have hrun := hs
  unfold Dataflow.step at hrun
  split_ifs at hrun
  cases a with
  | start n =>
    obtain ⟨⟨b, r⟩, hb, rfl⟩ := Option.map_eq_some_iff.mp hrun
    rw [reply_congr (f := Block.completedTask) fun _ _ => rfl]
    exact set_congr (f := Block.completedTask) (by rw [(Block.start_eq hb).1]) m
  | complete n | setFaulted n e => exact hcomplete hrun
  | runFaultThread n =>
    simp only at hrun
    split at hrun
    · cases hrun
    · rw [hcomplete hrun]
      exact set_congr (f := Block.completedTask) (by rfl) m
  | advance n => exact absurd rfl (ha n)
  | acceptInputAsync | runCall | process =>
    refine step_congr (f := Block.completedTask) (fun n b b' hb => ?_) (fun _ _ => rfl)
      (fun _ _ => rfl) hs rfl m
    cases Block.process_cases hb <;> rfl

end AsyncCpp.DataFlow

namespace AsyncCpp.Actors.ActorPolicy

open Interleaving Tasks DataFlow

variable {Result S ε T : Type} [DecidableEq T] {members : S}

/-! ## Runs -/

namespace PolicySystem

/-- The queue keeps to `G`. -/
def OnQueue
    (G : Dataflow Unit (ScheduledFunction Result S ε × ℕ) (ReplyState (Option Result) S ε) ε →
      DataflowLabel Unit (ScheduledFunction Result S ε × ℕ) ε → Prop)
    (s : PolicySystem Result S ε T) (l : PolicyLabel Result S ε T) : Prop :=
  ∀ a b, s.queueLabel l = some a → s.actorQueue.base a = some b → G s.actorQueue.dataflow b

/-- When the first `Complete()` enters the queue, the functions scheduled so far are in it. -/
def ScheduledBefore (s : PolicySystem Result S ε T) : PolicyLabel Result S ε T → Prop
  | .queueComplete _ => s.block.completedBy = [] →
    ∀ k c, s.actorQueue.dataflow.call k = some c → c.phase = .returned
  | _ => True

/-- The condition on the runs: `ScheduledBefore`, and no `Release()` of an `AcceptInputAsync`
    finds the semaphore of the queue full. -/
def PolicyUse (s : PolicySystem Result S ε T) (l : PolicyLabel Result S ε T) : Prop :=
  s.ScheduledBefore l ∧ s.OnQueue Roomy l

variable {s s' s₀ : PolicySystem Result S ε T} {l : PolicyLabel Result S ε T}

/-- The threads in `Complete()`, the continuation task and the queue after the holder of
    `_stateMutex` has moved. -/
structure Advanced (s : PolicySystem Result S ε T) (next : NextCall Unit ε)
    (q : HandlerSystem Unit (ScheduledFunction Result S ε × ℕ) (ReplyState (Option Result) S ε) ε)
    (s' : PolicySystem Result S ε T) : Prop where
  queue : s'.actorQueue = q
  coroutine : s'.coroutine = s.coroutine
  returned : s'.returned = s.returned
  complete : ∀ t, s'.complete t = s.complete t ∨
    s.complete t = .completing ∧ ∃ r, next = .reply r ∧ s'.complete t = .reply r
  completion : s'.block.completedTask.state.isCompleted = true ∧
      s.block.completedTask.state.isCompleted = false ∧
        TaskSystem.step .function s.completionTask (.start none) = some s'.completionTask ∨
    (s'.block.completedTask.state.isCompleted = true →
        s.block.completedTask.state.isCompleted = true) ∧ s'.completionTask = s.completionTask

theorem advanced_spec {next : NextCall Unit ε}
    {q : HandlerSystem Unit (ScheduledFunction Result S ε × ℕ) (ReplyState (Option Result) S ε) ε}
    (hs : s.advanced next q = some s') : Advanced s next q s' := by
  have hcomplete : ∀ pc : CompletePc, pc.advance next = pc ∨
      pc = .completing ∧ ∃ r, next = .reply r ∧ pc.advance next = .reply r := by
    intro pc
    cases pc with
    | completing =>
      cases next with
      | reply r => exact .inr ⟨rfl, r, rfl, rfl⟩
      | start c | complete c e => exact .inl rfl
    | _ => exact .inl rfl
  unfold advanced at hs
  simp only at hs
  split_ifs at hs with hnew
  · obtain ⟨c, hc, rfl⟩ := Option.map_eq_some_iff.mp hs
    exact ⟨rfl, rfl, rfl, fun t => hcomplete _, .inl ⟨hnew.1, by simpa using hnew.2, hc⟩⟩
  · cases hs
    refine ⟨rfl, rfl, rfl, fun t => hcomplete _, .inr ⟨fun hc => ?_, rfl⟩⟩
    by_contra hnot
    exact hnew ⟨hc, hnot⟩

/-- A step is a step of the queue, or leaves the queue alone. -/
theorem PolicyStep.queue_cases (hs : PolicyStep members s l s') :
    (∃ a, s.queueLabel l = some a ∧
      HandlerSystem.step (ActorPolicy.actorQueue members) s.actorQueue a = some s'.actorQueue ∧
        (s.Checked a ∨ a = .dataflow (.advance ()) ∨
          ∃ t, l = .queueComplete t ∧ s.complete t = .queueComplete ∧
            a = .dataflow (.complete ()))) ∨
      s'.actorQueue = s.actorQueue := by
  cases hs with
  | queue hl ha hq => exact .inl ⟨_, hl, hq, .inl ha⟩
  | queueComplete ht hb hq => exact .inl ⟨_, rfl, hq, .inr (.inr ⟨_, rfl, ht, rfl⟩)⟩
  | advance hidle hb hq hs =>
    rw [(advanced_spec hs).queue]
    exact .inl ⟨_, rfl, hq, .inr (.inl rfl)⟩
  | coroutine | starting | accepted | refused | wait | completeReturns | completion =>
    exact .inr rfl

theorem PolicyStep.ne_created (hs : PolicyStep members s l s') (h : s.block.state ≠ .created) :
    s'.block.state ≠ .created := by
  rcases hs.queue_cases with ⟨a, -, hq, -⟩ | hq
  · rcases HandlerSystem.step_dataflow hq with ⟨b, -, hb⟩ | ⟨-, hb⟩
    · exact Block.closed_ne_created.step (fun _ => h) (fun _ _ _ _ => trivial) hb ()
    · rwa [block, hb]
  · rwa [block, hq]

/-- `Complete()` is called when the constructor has returned. -/
theorem reachable_constructed
    {G : PolicySystem Result S ε T → PolicyLabel Result S ε T → Prop}
    (h : (policyMachine members T).Reachable G s) :
    ∀ t, s.complete t ≠ .idle → s.block.state ≠ .created := by
  refine h.invariant (I := fun s => ∀ t, s.complete t ≠ .idle → s.block.state ≠ .created)
    (fun t ht => absurd rfl ht) fun s l s' hi _ hs t ht => ?_
  have hstep := step_cases hs
  refine hstep.ne_created ?_
  have hupdate : ∀ {u : T} {pc : CompletePc}, s.block.state ≠ .created ∨ pc = .idle →
      Function.update s.complete u pc t ≠ .idle → s.block.state ≠ .created := by
    intro u pc hu hne
    by_cases htu : t = u
    · subst htu
      rw [Function.update_self] at hne
      exact hu.resolve_right hne
    · rw [Function.update_of_ne htu] at hne
      exact hi t hne
  cases hstep with
  | queueComplete hu => exact hupdate (.inl (hi _ (by rw [hu]; nofun))) ht
  | advance hidle hb hq hs =>
    rcases (advanced_spec hs).complete t with heq | ⟨hcompleting, -⟩
    · exact hi t (heq ▸ ht)
    · exact hi t (by rw [hcompleting]; nofun)
  | accepted hu =>
    simp only [mayCall, Bool.and_eq_true, decide_eq_true_eq] at hu
    exact hupdate (.inl hu.1.1) ht
  | refused | completeReturns => exact hupdate (.inr rfl) ht
  | wait hu => exact hupdate (.inl (hi _ (by rw [hu]; nofun))) ht
  | queue | coroutine | starting | completion => exact hi t ht

/-- The actor calls its queue as it has to. -/
theorem PolicyStep.askUse
    {X : Dataflow Unit (ScheduledFunction Result S ε × ℕ) (ReplyState (Option Result) S ε) ε →
      DataflowLabel Unit (ScheduledFunction Result S ε × ℕ) ε → Prop}
    (hs : PolicyStep members s l s') (hg : s.PolicyUse l) (hX : s.OnQueue X l)
    (hcon : ∀ t, s.complete t ≠ .idle → s.block.state ≠ .created) :
    (handlerMachine (ActorPolicy.actorQueue members)).Reaches
      (Under fun s a => AskUse s a ∧ X s a) s.actorQueue s'.actorQueue := by
  rcases hs.queue_cases with ⟨a, hl, hq, ha⟩ | hq
  · refine .single (fun b hb => ⟨⟨⟨?_, hg.2 a b hl hb⟩, ?_⟩, hX a b hl hb⟩) hq
    · rcases ha with ha | rfl | ⟨t, rfl, ht, rfl⟩
      · cases a with
        | dataflow b' =>
          cases hb
          cases b <;> first | exact ha | exact ha.1 | trivial
        | call n => cases hb
        | _ => exact ha.elim
      · cases hb
        trivial
      · cases hb
        exact ⟨hcon t (by rw [ht]; nofun), hg.1⟩
    · rcases ha with ha | rfl | ⟨t, rfl, ht, rfl⟩
      · cases a with
        | dataflow b' =>
          cases hb
          cases b <;> first | exact ha.2 | trivial
        | call n => cases hb
        | _ => exact ha.elim
      · cases hb
        trivial
      · cases hb
        trivial
  · rw [hq]
    exact .refl

/-- What happens at the queue is a run of the block of an actor. -/
theorem reaches_queue
    {X : Dataflow Unit (ScheduledFunction Result S ε × ℕ) (ReplyState (Option Result) S ε) ε →
      DataflowLabel Unit (ScheduledFunction Result S ε × ℕ) ε → Prop}
    {G : PolicySystem Result S ε T → PolicyLabel Result S ε T → Prop}
    (hG : ∀ s l, G s l → s.PolicyUse l ∧ s.OnQueue X l)
    (h₀ : (policyMachine members T).Reachable G s₀) (h : (policyMachine members T).Reaches G s₀ s) :
    (handlerMachine (ActorPolicy.actorQueue members)).Reaches
      (Under fun s a => AskUse s a ∧ X s a) s₀.actorQueue s.actorQueue := by
  induction h with
  | refl => exact .refl
  | tail hr hg hs ih =>
    exact ih.trans ((step_cases hs).askUse (hG _ _ hg).1 (hG _ _ hg).2
      (reachable_constructed (h₀.trans hr)))

theorem reachable_queue (h : (policyMachine members T).Reachable PolicyUse s) :
    (handlerMachine (ActorPolicy.actorQueue members)).Reachable (Under AskUse) s.actorQueue :=
  (reaches_queue (X := fun _ _ => True) (fun _ _ hg => ⟨hg, fun _ _ _ _ => trivial⟩) .init
    h).mono fun _ _ => Under.mono fun _ _ hg => hg.1

theorem reachable_actorInv
    (h : (policyMachine members T).Reachable PolicyUse s) :
    HealthyInv s.block ∧ ActorInv s.actorQueue.dataflow ∧
      BlockFacts (ActorPolicy.actorQueue members) s.block := by
  have hr := reaches_under (reachable_queue h)
  obtain ⟨-, hh, hinv⟩ := Actors.reachable_actorInv rfl (fun _ _ hg => hg.1)
    (returning_of_answering (answering_actorQueue members)) hr
  exact ⟨hh, hinv, reachable_blockFacts hr⟩

end PolicySystem

/-! ## The continuation task -/

section Completion

variable {c c' : TaskSystem Unit ε (Option T)} {complete : T → CompletePc}
  {returned : List (T × Bool)}

/-- A thread in `_completionTask.Wait()` stays there until `OnCompleted()` has ended, and the
    accepted calls of `Complete` that have returned come after it. -/
structure WaitInv (c : TaskSystem Unit ε (Option T)) (complete : T → CompletePc)
    (returned : List (T × Bool)) : Prop where
  uncancelled : Uncancelled c
  unstarted : ∀ t, ¬ StartSection c (some t)
  waiting : ∀ t, complete t = .waiting →
    (c.pc (some t)).waits ∨ c.pc (some t) = .idle ∧ c.funcLog ≠ []
  notCaught : ∀ t, complete t ≠ .caught
  returned : ∀ t, (t, true) ∈ returned → c.funcLog ≠ []

namespace WaitInv

omit [DecidableEq T] in
theorem init : WaitInv ({} : TaskSystem Unit ε (Option T)) (fun _ => .idle) [] where
  uncancelled := .init
  unstarted t h := by simp [StartSection] at h
  waiting := nofun
  notCaught := nofun
  returned := nofun

/-- The continuation task moves, and no thread that is in its `Wait()` makes a call. -/
theorem task_step (h : WaitInv c complete returned) {a : TaskLabel Unit ε (Option T)}
    (ha : a ≠ .cancel) (hstart : ∀ t, a ≠ .start (some t))
    (hbegins : ∀ t, a.begins = some (some t) → complete t ≠ .waiting)
    (hc : TaskSystem.step .function c a = some c') : WaitInv c' complete returned := by
  have hlog : c.funcLog ≠ [] → c'.funcLog ≠ [] := fun hne hnil =>
    hne (List.prefix_nil.mp (hnil ▸ funcLog_step hc))
  refine ⟨h.uncancelled.step ha hc, fun t hsec => ?_, fun t ht => ?_, h.notCaught,
    fun t ht => hlog (h.returned t ht)⟩
  · rcases step_startSection hc with ⟨u, rfl, -, -, -, hu⟩ | ⟨-, hu⟩
    · rcases hu _ hsec with heq | hsec
      · exact hstart t (by rw [heq])
      · exact h.unstarted t hsec
    · exact h.unstarted t (hu _ hsec).1
  · rcases h.waiting t ht with hw | ⟨hidle, hne⟩
    · exact h.uncancelled.wait_step hc hw
    · exact .inr ⟨idle_step hc hidle fun hb => hbegins t hb ht, hlog hne⟩

omit [DecidableEq T] in
/-- The calls of `Complete` move, and no thread comes to its `Wait()`. -/
theorem move (h : WaitInv c complete returned) {complete' : T → CompletePc}
    (hc : ∀ t, complete' t = complete t ∨ complete' t ≠ .waiting ∧ complete' t ≠ .caught) :
    WaitInv c complete' returned := by
  refine ⟨h.uncancelled, h.unstarted, fun t ht => ?_, fun t ht => ?_, h.returned⟩
  · rcases hc t with heq | ⟨hne, -⟩
    · exact h.waiting t (heq ▸ ht)
    · exact absurd ht hne
  · rcases hc t with heq | ⟨-, hne⟩
    · exact h.notCaught t (heq ▸ ht)
    · exact hne ht

theorem goto (h : WaitInv c complete returned) {t : T} {pc : CompletePc} (hw : pc ≠ .waiting)
    (hne : pc ≠ .caught) : WaitInv c (Function.update complete t pc) returned := by
  refine h.move fun u => ?_
  by_cases hu : u = t
  · subst hu
    rw [Function.update_self]
    exact .inr ⟨hw, hne⟩
  · exact .inl (Function.update_of_ne hu ..)

/-- A thread calls `_completionTask.Wait()`. -/
theorem wait (h : WaitInv c complete returned) {t : T} (ht : complete t ≠ .waiting)
    (hc : TaskSystem.step .function c (.wait (some t) false) = some c') :
    WaitInv c' (Function.update complete t .waiting) returned := by
  have hstep := h.task_step (a := .wait (some t) false) nofun nofun (by
    intro u hu
    cases hu
    exact ht) hc
  have hpc : (c'.pc (some t)).waits := by
    simp only [TaskSystem.step] at hc
    split_ifs at hc
    cases hc
    simp [Pc.waits]
  refine ⟨hstep.uncancelled, hstep.unstarted, fun u hu => ?_, fun u hu => ?_, hstep.returned⟩
  · by_cases hut : u = t
    · subst hut
      exact .inl hpc
    · rw [Function.update_of_ne hut] at hu
      exact hstep.waiting u hu
  · by_cases hut : u = t
    · subst hut
      rw [Function.update_self] at hu
      cases hu
    · rw [Function.update_of_ne hut] at hu
      exact hstep.notCaught u hu

/-- An accepted call of `Complete` returns. -/
theorem completeReturns (h : WaitInv c complete returned) {t : T}
    (ht : complete t = .waiting ∧ c.pc (some t) = .idle ∨ complete t = .caught) :
    WaitInv c (Function.update complete t .idle) (returned ++ [(t, true)]) := by
  have hlog : c.funcLog ≠ [] := by
    rcases ht with ⟨hw, hidle⟩ | hcaught
    · rcases h.waiting t hw with hwaits | ⟨-, hne⟩
      · rw [hidle] at hwaits
        cases hwaits
      · exact hne
    · exact absurd hcaught (h.notCaught t)
  have hgoto : WaitInv c (Function.update complete t .idle) returned := h.goto nofun nofun
  exact { hgoto with returned := fun _ _ => hlog }

end WaitInv

end Completion

namespace PolicySystem

variable [Fintype T] {s s' : PolicySystem Result S ε T} {l : PolicyLabel Result S ε T}

/-- `OnCompleted()` knows whether `Completion()` of the queue is completed. -/
structure CompletionInv (s : PolicySystem Result S ε T) : Prop where
  task : Tasks.TaskInv (if s.block.completedTask.state.isCompleted then 1 else 0) s.completionTask
  wait : WaitInv s.completionTask s.complete s.returned

omit [DecidableEq T] [Fintype T] in
/-- Only the holder of `_stateMutex` completes `Completion()` of the queue. -/
theorem completedTask_eq
    {a : HandlerLabel Unit (ScheduledFunction Result S ε × ℕ) ε}
    {q : HandlerSystem Unit (ScheduledFunction Result S ε × ℕ) (ReplyState (Option Result) S ε) ε}
    (hq : HandlerSystem.step (ActorPolicy.actorQueue members) s.actorQueue a = some q)
    (ha : ∀ n, s.actorQueue.base a ≠ some (.advance n)) :
    (q.dataflow.block ()).completedTask = s.block.completedTask := by
  rcases HandlerSystem.step_dataflow hq with ⟨b, hb, hs⟩ | ⟨-, hs⟩
  · exact Dataflow.completedTask_step hs (fun n hn => ha n (hn ▸ hb)) ()
  · rw [hs]
    rfl

omit [Fintype T] in
/-- It stays completed. -/
theorem completed_of_completed (h : (policyMachine members T).Reachable PolicyUse s)
    (h' : (policyMachine members T).Reaches PolicyUse s s')
    (hc : s.block.completedTask.state.isCompleted) :
    s'.block.completedTask.state.isCompleted := by
  have hr := reachable_queue h
  have hq := (reaches_queue (X := fun _ _ => True) (fun _ _ hg => ⟨hg, fun _ _ _ _ => trivial⟩) h
    h').mono fun _ _ => Under.mono fun _ _ hg => hg.1
  have hsame := (done_of_completed rfl (fun _ _ hg => hg.1)
    (returning_of_answering (answering_actorQueue members)) .init hr hc).2 _ hq
  simp only [outcome, Prod.mk.injEq] at hsame
  rw [block, hsame.2.2.1]
  exact hc

namespace CompletionInv

/-- The continuation task moves. -/
theorem task_step (h : CompletionInv s) {a : TaskLabel Unit ε (Option T)}
    {c : TaskSystem Unit ε (Option T)} (hthread : a.thread ≠ some none)
    (hc : TaskSystem.step .function s.completionTask a = some c) :
    Tasks.TaskInv (if s.block.completedTask.state.isCompleted then 1 else 0) c := by
  have hsec : ∀ u, a = .run u → ¬ StartSection s.completionTask u := by
    rintro u rfl
    cases u with
    | none => exact absurd rfl hthread
    | some t => exact h.wait.unstarted t
  exact (h.task.other hc hthread (fun u hu hpc => absurd (.inr hpc) (hsec u hu))
    fun u hu hpc => absurd (.inl hpc) (hsec u hu)).1

/-- The holder of `_stateMutex` goes on. Where it completes `Completion()` of the queue, it is
    the first and calls `Start()` of the continuation task. -/
theorem advance_step (h : CompletionInv s)
    (hreach : (policyMachine members T).Reachable PolicyUse s)
    {b : Block Unit (ScheduledFunction Result S ε × ℕ) (ReplyState (Option Result) S ε) ε}
    {next : NextCall Unit ε}
    {q : HandlerSystem Unit (ScheduledFunction Result S ε × ℕ) (ReplyState (Option Result) S ε) ε}
    (hb : s.block.advance = some (b, next)) (hadv : Advanced s next q s')
    (hkept : s.block.completedTask.state.isCompleted → s'.block.completedTask.state.isCompleted) :
    CompletionInv s' := by
  obtain ⟨hh, hinv, hf⟩ := reachable_actorInv hreach
  obtain ⟨-, -, hnext⟩ := hinv.block.advance hf.shape hf.next rfl hh.notFailed hb
  have hmove : WaitInv s.completionTask s'.complete s'.returned := by
    rw [hadv.returned]
    refine h.wait.move fun t => ?_
    rcases hadv.complete t with heq | ⟨-, r, hr, heq⟩
    · exact .inl heq
    · refine .inr ?_
      rw [heq]
      rcases hnext with hnext | hnext <;> cases hr.symm.trans hnext <;> exact ⟨nofun, nofun⟩
  have htask := h.task
  rcases hadv.completion with ⟨hnew, hold, hstart⟩ | ⟨hold, heq⟩
  · rw [hold, if_neg (by simp)] at htask
    obtain ⟨c, hc, hinv, -⟩ := htask.start
    cases hstart.symm.trans hc
    refine ⟨by rw [if_pos hnew]; exact hinv, ?_⟩
    exact hmove.task_step (a := .start none) nofun (fun _ ht => by cases ht)
      (fun _ ht => by cases ht) hstart
  · rw [← heq] at htask hmove
    refine ⟨?_, hmove⟩
    rwa [show s'.block.completedTask.state.isCompleted = s.block.completedTask.state.isCompleted from
      Bool.eq_iff_iff.mpr ⟨hold, hkept⟩]

theorem step (h : CompletionInv s) (hreach : (policyMachine members T).Reachable PolicyUse s)
    (hg : s.PolicyUse l) (hs : s.step members l = some s') : CompletionInv s' := by
  have hkept := completed_of_completed hreach (.single hg hs)
  cases step_cases hs with
  | @queue l a q hl ha hq =>
    have heq := completedTask_eq hq fun n hn => by
      cases a with
      | dataflow b => cases hn; exact ha
      | resume n => exact ha
      | _ => cases hn
    refine ⟨?_, h.wait⟩
    show Tasks.TaskInv (if (q.dataflow.block ()).completedTask.state.isCompleted then 1 else 0) _
    rw [heq]
    exact h.task
  | @queueComplete t b r q ht hb hq =>
    obtain ⟨hh, hinv, hf⟩ := reachable_actorInv hreach
    have hcon := reachable_constructed hreach t (by rw [ht]; simp)
    obtain ⟨-, -, hr⟩ := hinv.block.completeCommon hf.task hf.shape hcon hb
    have heq := completedTask_eq hq fun n hn => by cases hn
    refine ⟨?_, ?_⟩
    · show Tasks.TaskInv (if (q.dataflow.block ()).completedTask.state.isCompleted then 1 else 0) _
      rw [heq]
      exact h.task
    · rcases hr with rfl | rfl <;> exact h.wait.goto (fun h => by cases h) (fun h => by cases h)
  | advance hidle hb hq hs => exact h.advance_step hreach hb (advanced_spec hs) hkept
  | coroutine => exact ⟨h.task, h.wait⟩
  | starting hc =>
    have hbusy : s.completionTask.pc none ≠ .idle := by
      intro hidle
      simp [TaskSystem.runStep, hidle] at hc
    exact ⟨(h.task.startStep hbusy hc).1, h.wait.task_step (a := .run none) (by simp) (by simp)
      (fun _ h => by cases h) hc⟩
  | accepted => exact ⟨h.task, h.wait.goto (by simp) (by simp)⟩
  | @refused t =>
    have hgoto : WaitInv s.completionTask (Function.update s.complete t .idle) s.returned :=
      h.wait.goto (by simp) (by simp)
    refine ⟨h.task, { hgoto with returned := fun u hu => h.wait.returned u ?_ }⟩
    simpa [returns] using hu
  | wait ht hc =>
    exact ⟨h.task_step (a := .wait (some _) false) (fun h => by cases h) hc,
      h.wait.wait (by rw [ht]; simp) hc⟩
  | completeReturns ht => exact ⟨h.task, h.wait.completeReturns ht⟩
  | @completion l c hl hc =>
    have hthread := l.thread_map_ne
    refine ⟨h.task_step hthread hc, h.wait.task_step ?_ ?_ ?_ hc⟩
    · cases l with
      | cancel => cases hl
      | _ => simp [TaskLabel.map]
    · cases l with
      | start t => cases hl
      | _ => simp [TaskLabel.map]
    · intro t ht
      cases l with
      | start u | set u call => cases hl
      | addContinuation u | wait u result | body u =>
        cases ht
        simp only [allows, decide_eq_true_eq] at hl
        rw [hl]
        simp
      | cancel | spuriousWake | call | run => cases ht

end CompletionInv

theorem reachable_completionInv (h : (policyMachine members T).Reachable PolicyUse s) :
    CompletionInv s :=
  h.invariant_with (fun _ hr => hr) ⟨.init, .init⟩ fun _ _ _ hr hi hg hs => hi.step hr hg hs

end PolicySystem

end AsyncCpp.Actors.ActorPolicy
