import AsyncCpp.Actors.ActorQueue
import AsyncCpp.DataFlow.Faults

/-!
# Progress of an actor

A thread is never left inside the queue of an actor without being able to go on: the one that
holds `_waitersLock` is the processing task or a call of `AcceptInputAsync`, and a permit is
released for every item. So an item that is not run is never left where it is.

Results:
* `progress`: while the item of a call that returned is not run, the processing task, a call
  or the thread in `Start` or `Complete` can take a step.
-/

namespace AsyncCpp.Actors

open Interleaving Tasks DataFlow AsyncPrimitives

variable {Item σ ε : Type*}

/-! ## The block -/

/-- The constructor is in `Start` until `_startTask` is completed, and the processing task is in
    every call of `TakeAsync` that has not ended. -/
structure AttendedBlock (b : Block Unit Item σ ε) : Prop where
  opening : b.startTask.state.isCompleted ∨ b.startTask = {} ∧
    (b.processingTask = .initial ∨ ∃ caller, b.stateMutex = some ⟨caller, .starting none⟩)
  waiting : ∀ i ∈ b.inputItems.asyncSemaphore.critical.calling,
    b.processingTask = .taking i ∧ b.inputItems.outcome i = none
  unresumed : ∀ i < b.inputItems.asyncSemaphore.issued, b.inputItems.outcome i = none →
    b.processingTask = .taking i

namespace AttendedBlock

variable {N : Network Unit Item σ ε} {n : Unit} {b b' : Block Unit Item σ ε}

/-- The queue takes a step in which nobody enters or leaves `TakeAsync`. -/
theorem queue_step (h : AttendedBlock b) {a : CollectionLabel Unit (QueueItem Unit Item)}
    (hs : b.inputItems.step a = some b'.inputItems) (ha : a.takes = false)
    (hp : b'.processingTask = b.processingTask)
    (ho : b'.startTask.state.isCompleted ∨ b'.startTask = {} ∧
      (b'.processingTask = .initial ∨
        ∃ caller, b'.stateMutex = some ⟨caller, .starting none⟩)) : AttendedBlock b' := by
  obtain ⟨hcall, hissued, hout⟩ := AsyncCollection.step_calling hs ha
  refine ⟨ho, fun i hi => ?_, fun i hi hnone => ?_⟩
  · rw [hp, hout]
    exact h.waiting i (hcall i hi)
  · rw [hp]
    rw [hout] at hnone
    rw [hissued] at hi
    exact h.unresumed i hi hnone

/-- The queue stays, and so does a processing task that is in `TakeAsync`. -/
theorem move (h : AttendedBlock b) (hq : b'.inputItems = b.inputItems)
    (hp : ∀ i, b.processingTask = .taking i → b'.processingTask = .taking i)
    (ho : b'.startTask.state.isCompleted ∨ b'.startTask = {} ∧
      (b'.processingTask = .initial ∨
        ∃ caller, b'.stateMutex = some ⟨caller, .starting none⟩)) : AttendedBlock b' := by
  refine ⟨ho, fun i hi => ?_, fun i hi hnone => ?_⟩
  · rw [hq] at hi ⊢
    exact ⟨hp i (h.waiting i hi).1, (h.waiting i hi).2⟩
  · rw [hq] at hi hnone
    exact hp i (h.unresumed i hi hnone)

theorem start (h : AttendedBlock b) {caller : Caller Unit} {r : Reply Unit ε}
    (hs : b.start caller = some (b', r)) : AttendedBlock b' := by
  unfold Block.start at hs
  split at hs
  · cases hs
  · rename_i hm
    simp only at hs
    split at hs
    · cases hs
      exact h.move rfl (fun _ hp => hp) h.opening
    · rename_i hp
      cases hs
      refine h.move rfl (fun i hi => ?_) ?_
      · cases hp.symm.trans hi
      · exact h.opening.imp_right fun ho => ⟨ho.1, .inr ⟨caller, rfl⟩⟩
    · cases hs
      refine h.move rfl (fun _ hp => hp) ?_
      exact h.opening.imp_right fun ho => ⟨ho.1, .inr ⟨caller, rfl⟩⟩
    · cases hs
      exact h.move rfl (fun _ hp => hp) h.opening

theorem completeCommon (h : AttendedBlock b) (ht : TaskInv b) (hst : b.state ≠ .created)
    {caller : Caller Unit} {e : Option (Exn ε)} {r : Reply Unit ε}
    (hs : b.completeCommon caller e = some (b', r)) : AttendedBlock b' := by
  have hm : b.stateMutex = none := by
    unfold Block.completeCommon at hs
    split at hs
    · cases hs
    · assumption
  have ho : b.startTask.state.isCompleted := by
    rcases h.opening with ho | ⟨-, hp | ⟨c, hc⟩⟩
    · exact ho
    · exact absurd (ht.initial hp).1 hst
    · cases hm.symm.trans hc
  rw [Block.completeCommon_eq hs]
  exact h.move rfl (fun _ hp => hp) (.inl ho)

theorem advance (h : AttendedBlock b) (ht : TaskInv b) (hnext : NextInv N n b)
    (hleaf : N.outputNodes n = []) {r : NextCall Unit ε} (hs : b.advance = some (b', r)) :
    AttendedBlock b' := by
  -- outside of `Start` the task it completes is completed
  have hdone : ∀ a, b.stateMutex = some a → (∀ c, a.section_ ≠ .starting c) →
      b.startTask.state.isCompleted := by
    intro a ha hne
    rcases h.opening with ho | ⟨-, hp | ⟨c, hc⟩⟩
    · exact ho
    · rw [(ht.initial hp).2] at ha
      cases ha
    · rw [hc] at ha
      cases ha
      exact absurd rfl (hne none)
  cases Block.advance_cases hs with
  | opened hm hto =>
    refine h.move rfl (fun _ hp => hp) (.inl ?_)
    show (b.startTask.exec (.setResult () true)).state.isCompleted
    rcases h.opening with ho | ⟨hst, -⟩
    · cases hst : b.startTask.state <;> rw [hst] at ho <;> cases ho
      all_goals simp [TaskSharedState.exec, SetCall.apply, hst, TaskState.isCompleted]
    · rw [hst]
      rfl
  | @startNext caller c cs hm hto =>
    have hsub := hnext.toStart
    rw [hto, hleaf] at hsub
    exact absurd (hsub List.mem_cons_self) List.not_mem_nil
  | cancel hm hq | runCancel hm hq =>
    exact h.queue_step hq rfl rfl (.inl (hdone _ hm (by simp)))
  | @waited caller e r hm hr =>
    cases r <;> exact h.move rfl (fun _ hp => hp) (.inl (hdone _ hm (by simp)))
  | canceled hm | finished hm | rethrown hm | completeNext hm | throwing hm =>
    exact h.move rfl (fun _ hp => hp) (.inl (hdone _ hm (by simp)))

theorem accept (h : AttendedBlock b) {x : QueueItem Unit Item} {phase phase' : AcceptPhase ε}
    (hs : b.acceptInputAsync x phase = some (b', phase')) : AttendedBlock b' := by
  cases Block.acceptInputAsync_cases hs with
  | started | notStarted => exact h
  | push hq | full hq | release hq | releasing hq => exact h.queue_step hq rfl rfl h.opening

theorem opening_of_ne_initial (h : AttendedBlock b) (hp : b.processingTask ≠ .initial)
    (p : Processing Unit Item ε) : b.startTask.state.isCompleted ∨ b.startTask = {} ∧
      (p = .initial ∨ ∃ caller, b.stateMutex = some ⟨caller, .starting none⟩) :=
  h.opening.imp_right fun ho => ⟨ho.1, .inr (ho.2.resolve_left hp)⟩

/-- The processing task, in `TakeAsync` number `i` which has ended, leaves it. -/
theorem leave (h : AttendedBlock b) {i : ℕ} (hp : b.processingTask = .taking i)
    {r : Except (Exn ε) (QueueItem Unit Item)} (ho : b.inputItems.outcome i = some r)
    {p : Processing Unit Item ε} : AttendedBlock { b with processingTask := p } := by
  have hne : ∀ j, b.processingTask = .taking j → b.inputItems.outcome j ≠ none := by
    intro j hj hnone
    cases hp.symm.trans hj
    cases ho.symm.trans hnone
  refine ⟨h.opening_of_ne_initial (by rw [hp]; nofun) p, fun j hj => ?_,
    fun j hj hnone => absurd hnone (hne j (h.unresumed j hj hnone))⟩
  · obtain ⟨hpj, hnone⟩ := h.waiting j hj
    exact absurd hnone (hne j hpj)

/-- `TakeAsync` is called. -/
theorem take (h : AttendedBlock b) (hq : QueueInv b) (hp : b.processingTask = .loop)
    {q : AsyncCollection Unit (QueueItem Unit Item) ε}
    (hs : b.inputItems.step (.takeAsync (some ())) = some q) :
    AttendedBlock { b with
      inputItems := q, processingTask := .taking b.inputItems.asyncSemaphore.issued } := by
  have hissued := AsyncCollection.takeAsync_issued hs
  obtain ⟨t, ht, rfl⟩ := AsyncCollection.semaphoreStep_cases hs
  simp only [AsyncSemaphore.step] at ht
  split at ht <;> cases ht
  rename_i hc
  refine ⟨h.opening_of_ne_initial (by rw [hp]; simp) _, fun i hi => ?_, fun i hi hnone => ?_⟩
  · rw [(AsyncSemaphore.waitAsync_calling hc _).1 i hi]
    exact ⟨rfl, hq.fresh _ le_rfl⟩
  · by_cases hlt : i < b.inputItems.asyncSemaphore.issued
    · cases hp.symm.trans (h.unresumed i hlt hnone)
    · have heq : i = b.inputItems.asyncSemaphore.issued := by
        have hle : i < b.inputItems.asyncSemaphore.issued + 1 := hissued ▸ hi
        omega
      rw [heq]

/-- The `TakeAsync` is resumed. -/
theorem resume (h : AttendedBlock b) {i : ℕ} (hp : b.processingTask = .taking i)
    {q : AsyncCollection Unit (QueueItem Unit Item) ε}
    (hs : b.inputItems.step (.resume i) = some q) : AttendedBlock { b with inputItems := q } := by
  have hout : i ∉ b.inputItems.asyncSemaphore.critical.calling := by
    simp only [AsyncCollection.step] at hs
    split_ifs at hs with hcond
    exact hcond.2.1
  have hcalling : ∀ j ∈ b.inputItems.asyncSemaphore.critical.calling, False := by
    intro j hj
    cases hp.symm.trans (h.waiting j hj).1
    exact hout hj
  have hunresumed : ∀ (r : Except (Exn ε) (QueueItem Unit Item)), ∀ j,
      j < b.inputItems.asyncSemaphore.issued →
        Function.update b.inputItems.outcome i (some r) j = none →
          b.processingTask = .taking j := by
    intro r j hj hnone
    by_cases hji : j = i
    · rw [hji, Function.update_self] at hnone
      cases hnone
    · rw [Function.update_of_ne hji] at hnone
      exact h.unresumed j hj hnone
  obtain ⟨x, xs, -, rfl⟩ | ⟨e, rfl⟩ := AsyncCollection.resume_cases hs
  · exact ⟨h.opening, fun j hj => (hcalling j hj).elim, hunresumed _⟩
  · exact ⟨h.opening, fun j hj => (hcalling j hj).elim, hunresumed _⟩

theorem process (h : AttendedBlock b) (hq : QueueInv b) (hs : b.process N n = some b') :
    AttendedBlock b' := by
  -- the steps outside of `TakeAsync`
  have hstay : ∀ {p : Processing Unit Item ε}, b.processingTask ≠ .initial →
      (∀ i, b.processingTask ≠ .taking i) → AttendedBlock { b with processingTask := p } := by
    intro p hp hnot
    exact h.move rfl (fun i hi => absurd hi (hnot i)) (h.opening_of_ne_initial hp p)
  cases Block.process_cases hs with
  | take hp ht => exact h.take hq hp ht
  | waiting hp ha => exact h.queue_step ha rfl rfl h.opening
  | resume hp ho hr => exact h.resume hp hr
  | took hp ho | retry hp ho | takeFailed hp ho he => exact h.leave hp ho
  | started hp | canceled hp | asked hp | propagated hp =>
    exact hstay (by rw [hp]; nofun) (by rw [hp]; nofun)
  | invoked hp | threw hp | reported hp =>
    have hb := @hstay
    rw [hp] at hb
    obtain ⟨h1, h2, h3⟩ := hb nofun nofun
    exact ⟨h1, h2, h3⟩
  | drained hp ht =>
    have hb := @hstay
    rw [hp] at hb
    cases ht
    obtain ⟨h1, h2, h3⟩ := hb nofun nofun
    exact ⟨h1, h2, h3⟩

/-- The processing task neither adds nor releases. -/
theorem process_queue (hs : b.process N n = some b') :
    b'.processingTask ≠ .initial ∧ b'.inputItems.adding = b.inputItems.adding ∧
      (b'.inputItems.asyncSemaphore.critical.inRelease →
        b.inputItems.asyncSemaphore.critical.inRelease) := by
  cases Block.process_cases hs with
  | take hp hq =>
    exact ⟨nofun, AsyncCollection.step_adding hq nofun nofun,
      AsyncCollection.step_inRelease hq nofun⟩
  | waiting hp hq | resume hp ho hq =>
    refine ⟨?_, AsyncCollection.step_adding hq nofun nofun,
      AsyncCollection.step_inRelease hq nofun⟩
    show b.processingTask ≠ .initial
    rw [hp]
    nofun
  | drained hp hq =>
    exact ⟨TaskInv.next_ne_initial _, AsyncCollection.step_adding hq nofun nofun,
      AsyncCollection.step_inRelease hq nofun⟩
  | propagated hp => exact ⟨TaskInv.next_ne_initial _, rfl, id⟩
  | _ => exact ⟨nofun, rfl, id⟩

end AttendedBlock

/-! ## The calls -/

/-- The call has added its item and is about to call `Release()`. -/
def atRelease : Option (AcceptCall Unit Item ε) → Bool
  | some ⟨_, _, .release⟩ => true
  | _ => false

theorem atRelease_afterRelease (node : Unit) (item : Item)
    (q : AsyncCollection Unit (QueueItem Unit Item) ε) :
    atRelease (some ⟨node, item, .afterRelease q⟩) = false := by
  unfold AcceptPhase.afterRelease
  split_ifs <;> rfl

theorem afterRelease_of_inRelease {q : AsyncCollection Unit (QueueItem Unit Item) ε}
    (h : q.asyncSemaphore.critical.inRelease) : AcceptPhase.afterRelease q = .releasing := by
  unfold AcceptPhase.afterRelease AsyncCollection.lockFree
  split
  · rename_i hfree
    rw [hfree] at h
    cases h
  · rfl

/-- Every thread inside the queue of an actor is one that goes on. -/
structure AttendedInv (s : Dataflow Unit Item σ ε) : Prop where
  block : AttendedBlock (s.block ())
  unstarted : (s.block ()).processingTask = .initial → s.calls = 0
  releasing : (s.block ()).inputItems.asyncSemaphore.critical.inRelease →
    ∃ k c, s.call k = some c ∧ c.phase = .releasing
  adding : (s.block ()).inputItems.adding = Nat.count (fun k => atRelease (s.call k)) s.calls

namespace AttendedInv

variable {N : Network Unit Item σ ε} {s s' : Dataflow Unit Item σ ε}

/-- A step that is not one of a call. -/
theorem set (h : AttendedInv s) {b : Block Unit Item σ ε} (hb : AttendedBlock b)
    (hp : b.processingTask = .initial → (s.block ()).processingTask = .initial)
    (hr : b.inputItems.asyncSemaphore.critical.inRelease →
      (s.block ()).inputItems.asyncSemaphore.critical.inRelease)
    (ha : b.inputItems.adding = (s.block ()).inputItems.adding) : AttendedInv (s.set () b) :=
  ⟨hb, fun hi => h.unstarted (hp hi), fun hc => h.releasing (hr hc), ha.trans h.adding⟩

theorem acceptInputAsync (h : AttendedInv s) (hcalls : s.CallInv)
    (hi : (s.block ()).processingTask ≠ .initial) (n : Unit) (item : Item) :
    AttendedInv { s with
      call := Function.update s.call s.calls (some { node := n, item := item })
      calls := s.calls + 1 } := by
  refine ⟨h.block, fun hp => absurd hp hi, fun hc => ?_, ?_⟩
  · obtain ⟨k, c, hk, hphase⟩ := h.releasing hc
    refine ⟨k, c, ?_, hphase⟩
    show Function.update s.call s.calls _ k = some c
    rw [Function.update_of_ne (hcalls.lt_calls hk).ne, hk]
  · show (s.block ()).inputItems.adding = Nat.count
      (fun k => atRelease (Function.update s.call s.calls (some { node := n, item := item }) k))
      (s.calls + 1)
    rw [Nat.count_succ, count_update_of_le (Q := fun c => atRelease c) le_rfl,
      Function.update_self, ← h.adding]
    rfl

/-- A call goes on. -/
theorem runCall (h : AttendedInv s) (hcalls : s.CallInv) {k : ℕ} (hroom : Roomy s (.runCall k))
    (hs : s.runCall k = some s') : AttendedInv s' := by
  obtain ⟨c, b, phase, hc, hb, rfl⟩ := Dataflow.runCall_cases hs
  have hblock := h.block.accept hb
  have hcount := count_update (Q := fun c => atRelease c) (f := s.call)
    (b := some { c with phase := phase }) (hcalls.lt_calls hc)
  rw [hc] at hcount
  have hother : ∀ j d, s.call j = some d → d.phase = .releasing → c.phase ≠ .releasing →
      Function.update s.call k (some { c with phase := phase }) j = some d := by
    intro j d hj hphase hne
    have hjk : j ≠ k := by
      rintro rfl
      cases hc.symm.trans hj
      exact hne hphase
    rw [Function.update_of_ne hjk, hj]
  have hproc : b.processingTask = .initial → s.calls = 0 := by
    rw [Block.acceptInputAsync_eq hb]
    exact h.unstarted
  have hadding := h.adding
  obtain ⟨node, item, was⟩ := c
  cases Block.acceptInputAsync_cases hb with
  | started | notStarted =>
    refine ⟨hblock, hproc, fun hcrit => ?_, hadding.trans hcount.symm⟩
    obtain ⟨j, d, hj, hphase⟩ := h.releasing hcrit
    exact ⟨j, d, hother j d hj hphase (by simp), hphase⟩
  | push hq =>
    refine ⟨hblock, hproc, fun hcrit => ?_, ?_⟩
    · obtain ⟨j, d, hj, hphase⟩ := h.releasing (AsyncCollection.step_inRelease hq (by simp) hcrit)
      exact ⟨j, d, hother j d hj hphase (by simp), hphase⟩
    · cases hq
      exact (congrArg (· + 1) hadding).trans hcount.symm
  | full hq hfull =>
    exact absurd hfull (hroom node ⟨.user k, item⟩ (Dataflow.accepting_runCall hc))
  | @release q hq hfull =>
    refine ⟨hblock, hproc, fun hcrit => ⟨k, _, Function.update_self .., ?_⟩, ?_⟩
    · exact afterRelease_of_inRelease hcrit
    · have hless : q.adding + 1 = (s.block node).inputItems.adding := by
        simp only [AsyncCollection.step] at hq
        split_ifs at hq with hpos
        obtain ⟨t, -, rfl⟩ := AsyncCollection.semaphoreStep_cases hq
        exact Nat.sub_add_cancel hpos
      simp only [atRelease_afterRelease] at hcount
      exact Nat.add_right_cancel (hless.trans (hadding.trans hcount.symm))
  | releasing hq =>
    refine ⟨hblock, hproc, fun hcrit => ⟨k, _, Function.update_self .., ?_⟩, ?_⟩
    · exact afterRelease_of_inRelease hcrit
    · simp only [atRelease_afterRelease] at hcount
      exact (AsyncCollection.step_adding hq (by simp) (by simp)).trans (hadding.trans hcount.symm)

/-- The thread that holds `_stateMutex` goes on. -/
theorem advance (h : AttendedInv s) (hf : BlockFacts N (s.block ())) (hinv : ActorInv s)
    (hh : HealthyInv (s.block ())) (hleaf : N.outputNodes () = []) {n : Unit}
    (hs : s.advance n = some s') : AttendedInv s' := by
  unfold Dataflow.advance at hs
  split at hs
  · cases hs
  · rename_i b r hb
    obtain ⟨-, -, hr⟩ := hinv.block.advance hf.shape hf.next hleaf hh.notFailed hb
    obtain ⟨heq, hq⟩ := Block.advance_eq hb
    have hset : AttendedInv (s.set () b) := by
      refine h.set (h.block.advance hf.task hf.next hleaf hb) (fun hi => ?_) (fun hc => ?_) ?_
      · rw [heq] at hi
        exact hi
      · rcases hq with hq | ⟨_, rfl | rfl, hq⟩
        · exact hq ▸ hc
        · exact AsyncCollection.step_inRelease hq nofun hc
        · exact AsyncCollection.step_inRelease hq nofun hc
      · rcases hq with hq | ⟨_, rfl | rfl, hq⟩
        · exact congrArg AsyncCollection.adding hq
        · exact AsyncCollection.step_adding hq nofun nofun
        · exact AsyncCollection.step_adding hq nofun nofun
    cases hs
    rcases hr with hr | hr <;> cases hr <;> exact hset
  all_goals
    rename_i hb
    obtain ⟨-, -, hr⟩ := hinv.block.advance hf.shape hf.next hleaf hh.notFailed hb
    rcases hr with hr | hr <;> cases hr

theorem step (h : AttendedInv s) (hf : BlockFacts N (s.block ())) (hq : QueueInv (s.block ()))
    (hinv : ActorInv s) (hh : HealthyInv (s.block ())) (hcalls : s.CallInv)
    (hleaf : N.outputNodes () = []) {a : DataflowLabel Unit Item ε} (hg : ActorUse s a)
    (hs : s.step N a = some s') : AttendedInv s' := by
  have hroom := hg.2
  unfold Dataflow.step at hs
  split_ifs at hs
  cases a with
  | start n =>
    obtain ⟨⟨b, r⟩, hb, rfl⟩ := Option.map_eq_some_iff.mp hs
    obtain ⟨-, rfl⟩ := hinv.block.start hf.task hg.1 hb
    obtain ⟨heq, hp⟩ := Block.start_eq hb
    refine h.set (h.block.start hb) (fun hi => ?_) (fun hc => ?_) ?_
    · rcases hp with hp | ⟨hp, -⟩
      · rwa [← hp]
      · exact hp
    · rw [heq] at hc
      exact hc
    · rw [heq]
  | complete n =>
    obtain ⟨⟨b, r⟩, hb, rfl⟩ := Option.map_eq_some_iff.mp hs
    obtain ⟨-, -, hr⟩ := hinv.block.completeCommon hf.task hf.shape hg.1.1 hb
    have hset : AttendedInv (s.set () b) := by
      have heq := Block.completeCommon_eq hb
      refine h.set (h.block.completeCommon hf.task hg.1.1 hb) (fun hi => ?_) (fun hc => ?_) ?_
      · rw [heq] at hi
        exact hi
      · rw [heq] at hc
        exact hc
      · rw [heq]
    rcases hr with rfl | rfl <;> exact hset
  | setFaulted n e => exact hg.1.elim
  | acceptInputAsync n item =>
    cases hs
    exact h.acceptInputAsync hcalls (fun hi => hg.1 (hf.task.initial hi).1) n item
  | runCall k => exact h.runCall hcalls hroom hs
  | advance n => exact h.advance hf hinv hh hleaf hs
  | process n =>
    obtain ⟨b, hb, rfl⟩ := process_block hf.work hleaf hs
    obtain ⟨hp, ha, hr⟩ := AttendedBlock.process_queue hb
    exact h.set (h.block.process hq hb) (fun hi => absurd hi hp) hr ha
  | runFaultThread n =>
    have hnone : (s.block n).faultThread = none := hh.faultThread
    simp only [hnone] at hs
    cases hs

end AttendedInv

theorem reachable_attendedInv {N : Network Unit Item σ ε} (hleaf : N.outputNodes () = [])
    {G : Dataflow Unit Item σ ε → DataflowLabel Unit Item ε → Prop}
    (hG : ∀ s a, G s a → ActorUse s a)
    (hok : ∀ s, (dataflowMachine N).Reachable (fun s a => G s a ∧ PushBeforeDrain s a) s →
      HealthyInv (s.block ()) → Returning N (s.block ()))
    {s : Dataflow Unit Item σ ε} (h : (dataflowMachine N).Reachable G s) : AttendedInv s := by
  refine h.invariant_with (Q := (dataflowMachine N).Reachable G) (fun _ hr => hr) ?_ ?_
  · exact ⟨⟨.inr ⟨rfl, .inl rfl⟩, nofun, nofun⟩, fun _ => rfl, nofun, rfl⟩
  · intro s a s' hr hi hg hs
    obtain ⟨hdrain, hh, hinv⟩ := reachable_actorInv hleaf hG hok hr
    exact hi.step (reachable_blockFacts hr)
      (reachable_queueInv (hdrain.mono fun _ _ hg => hg.2) ()) hinv hh (reachable_callInv hr) hleaf
      (hG _ _ hg) hs

/-! ## An item that is not run -/

/-- No thread can go on. -/
structure Stuck (N : Network Unit Item σ ε) (s : Dataflow Unit Item σ ε) : Prop where
  process : s.process N () = none
  runCall : ∀ k, s.runCall k = none
  advance : s.advance () = none

namespace Stuck

variable {N : Network Unit Item σ ε} {s : Dataflow Unit Item σ ε}

theorem of_not_exists (hrun : s.terminated = false)
    (h : ¬ ∃ a : DataflowLabel Unit Item ε, a.isCall = false ∧ (s.step N a).isSome) : Stuck N s := by
  have hnone : ∀ a : DataflowLabel Unit Item ε, a.isCall = false → s.step N a = none := by
    intro a ha
    by_contra hne
    exact h ⟨a, ha, Option.isSome_iff_ne_none.mpr hne⟩
  have hstep : ∀ k, s.step N (.runCall k) = s.runCall k := by simp [Dataflow.step, hrun]
  refine ⟨?_, fun k => (hstep k).symm.trans (hnone _ rfl), ?_⟩
  · simpa [Dataflow.step, hrun] using hnone (.process ()) rfl
  · simpa [Dataflow.step, hrun] using hnone (.advance ()) rfl

/-- The processing task of a block without next blocks is stuck in its own block. -/
theorem block_process (h : Stuck N s) (hw : WorkInv N () (s.block ()))
    (hleaf : N.outputNodes () = []) : (s.block ()).process N () = none := by
  have htargets := hw.targets
  rw [hleaf, List.sublist_nil] at htargets
  have hp := h.process
  unfold Dataflow.process at hp
  split at hp
  · rename_i heq
    simp [heq, Processing.targets] at htargets
  · rename_i heq
    simp [heq, Processing.targets] at htargets
  · exact Option.map_eq_none_iff.mp hp

theorem accept (h : Stuck N s) {k : ℕ} {c : AcceptCall Unit Item ε} (hk : s.call k = some c) :
    (s.block ()).acceptInputAsync ⟨.user k, c.item⟩ c.phase = none := by
  have hrun := h.runCall k
  simp only [Dataflow.runCall, hk, Option.map_eq_none_iff] at hrun
  exact hrun

/-- Nobody holds `_waitersLock`. -/
theorem lock_free (h : Stuck N s) (hw : WorkInv N () (s.block ())) (hleaf : N.outputNodes () = [])
    (ha : AttendedInv s) : (s.block ()).inputItems.asyncSemaphore.critical = .free := by
  by_contra hne
  have hadv : ((s.block ()).inputItems.step .advance).isSome := by
    simpa [AsyncCollection.step, AsyncCollection.semaphoreStep, AsyncSemaphore.step] using
      AsyncSemaphore.advance_isSome hne
  have htake : ∀ i ∈ (s.block ()).inputItems.asyncSemaphore.critical.calling, False := by
    intro i hi
    have hp := h.block_process hw hleaf
    simp only [Block.process, (ha.block.waiting i hi).1, if_pos hi, Option.map_eq_none_iff] at hp
    rw [hp] at hadv
    cases hadv
  have hrelease : (s.block ()).inputItems.asyncSemaphore.critical.inRelease → False := by
    intro hcrit
    obtain ⟨k, c, hk, hphase⟩ := ha.releasing hcrit
    have hacc := h.accept hk
    simp only [hphase, Block.acceptInputAsync, Option.map_eq_none_iff] at hacc
    rw [hacc] at hadv
    cases hadv
  cases hc : (s.block ()).inputItems.asyncSemaphore.critical with
  | free => exact hne hc
  | registering i k | registerChecked i k | emplacing i r =>
    exact htake i (by rw [hc]; exact List.mem_singleton.mpr rfl)
  | popped i r | disposing r w => exact hrelease (by rw [hc]; rfl)

/-- No call is before its `Release()`. -/
theorem adding_eq_zero (h : Stuck N s) (ha : AttendedInv s)
    (hfree : (s.block ()).inputItems.asyncSemaphore.critical = .free) :
    (s.block ()).inputItems.adding = 0 := by
  by_contra hne
  refine hne (ha.adding.trans (Nat.count_of_forall_not fun k _ hk => ?_))
  have hsome : ((s.block ()).inputItems.step .release).isSome := by
    simp [AsyncCollection.step, AsyncCollection.semaphoreStep, AsyncSemaphore.step, hfree,
      Nat.pos_of_ne_zero hne]
  cases hcall : s.call k with
  | none =>
    rw [hcall] at hk
    cases hk
  | some c =>
    have hphase : c.phase = .release := by
      obtain ⟨node, item, phase⟩ := c
      rw [hcall] at hk
      cases phase <;> first | rfl | cases hk
    have hacc := h.accept hcall
    simp only [hphase, Block.acceptInputAsync, Option.map_eq_none_iff] at hacc
    rw [hacc] at hsome
    cases hsome

/-- A processing task that waits for an item waits for one that was not added. -/
theorem empty_of_taking (ha : AttendedInv s) (hq : QueueInv (s.block ()))
    (hc : CollectionInv (s.block ()).inputItems)
    (hfree : (s.block ()).inputItems.asyncSemaphore.critical = .free)
    (hadding : (s.block ()).inputItems.adding = 0) {i : ℕ}
    (hp : (s.block ()).processingTask = .taking i)
    (hwait : ((s.block ()).inputItems.asyncSemaphore.waitTask i).state.isCompleted = false) :
    (s.block ()).inputItems.innerCollection = [] := by
  have hcreated : ((s.block ()).inputItems.asyncSemaphore.waitTask i).state = .created := by
    rcases hc.semaphore.isWaitTask i with ht | ht | ht <;> rw [ht] at hwait ⊢ <;>
      first | rfl | cases hwait
  have hqueued := hc.semaphore.pending i (hq.taking i hp) hcreated
  have hwaiters : (s.block ()).inputItems.asyncSemaphore.waiters ≠ [] := by
    intro hnil
    simp [AsyncSemaphore.queued, hfree, Critical.waiter, hnil] at hqueued
  have hcount := hc.semaphore.zero (.inl hwaiters)
  have htakers : (s.block ()).inputItems.waitingTakers = 0 := by
    refine Nat.count_of_forall_not fun j hj hgranted => ?_
    have hpj := ha.block.unresumed j hj (Option.isNone_iff_eq_none.mp hgranted.2)
    cases hp.symm.trans hpj
    cases hcreated.symm.trans hgranted.1
  have hbal := hc.balance
  simp only [hcount, htakers, hadding, hfree, Critical.releasing, Critical.inRelease,
    Critical.grantedOne, Bool.false_eq_true, if_false] at hbal
  refine List.eq_nil_of_length_eq_zero ?_
  omega

end Stuck

/-- While the item of a call that returned is not run, a thread can go on. -/
theorem progress {N : Network Unit Item σ ε} (hleaf : N.outputNodes () = [])
    {G : Dataflow Unit Item σ ε → DataflowLabel Unit Item ε → Prop}
    (hG : ∀ s a, G s a → ActorUse s a)
    (hok : ∀ s, (dataflowMachine N).Reachable (fun s a => G s a ∧ PushBeforeDrain s a) s →
      HealthyInv (s.block ()) → Returning N (s.block ()))
    {s : Dataflow Unit Item σ ε} (h : (dataflowMachine N).Reachable G s) {k : ℕ}
    {c : AcceptCall Unit Item ε} (hk : s.call k = some c) (hret : c.phase = .returned)
    (hnot : ⟨.user k, c.item⟩ ∉ (s.block ()).ran) :
    ∃ a : DataflowLabel Unit Item ε, a.isCall = false ∧ (s.step N a).isSome := by
  by_contra hno
  obtain ⟨hdrain, hh, hinv⟩ := reachable_actorInv hleaf hG hok h
  have hq := reachable_queueInv (hdrain.mono fun _ _ hg => hg.2) ()
  have hf := reachable_blockFacts h
  have hcalls := reachable_callInv h
  have ha := reachable_attendedInv hleaf hG hok h
  have hstuck := Stuck.of_not_exists hinv.running hno
  have hfree := hstuck.lock_free hf.work hleaf ha
  have hadding := hstuck.adding_eq_zero ha hfree
  -- everything that was added is run
  have hall : (s.block ()).hand = [] → (s.block ()).inputItems.innerCollection = [] → False := by
    intro hhand hnil
    have hadded := hq.order
    rw [hq.ran hh.notFailed, hhand, hnil, List.append_nil, List.append_nil] at hadded
    have hmem : (⟨.user k, c.item⟩ : QueueItem Unit Item) ∈ s.fromCall k c.node := by
      rw [hcalls.after k c hk (by rw [hret]; rfl)]
      exact List.mem_singleton.mpr rfl
    exact hnot (hadded ▸ (List.mem_filter.mp hmem).1)
  have hp := hstuck.block_process hf.work hleaf
  cases hproc : (s.block ()).processingTask with
  | initial =>
    have hlt := hcalls.lt_calls hk
    rw [ha.unstarted hproc] at hlt
    omega
  | awaitStart =>
    simp only [Block.process, hproc] at hp
    rcases ha.block.opening with hdone | ⟨-, hi | ⟨caller, hm⟩⟩
    · simp [hdone] at hp
    · cases hproc.symm.trans hi
    · have hto := hf.next.toStart
      rw [hleaf, List.subset_nil] at hto
      have hadv := hstuck.advance
      simp [Dataflow.advance, Block.advance, hm, hto] at hadv
  | loop =>
    simp only [Block.process, hproc] at hp
    split_ifs at hp
    simp [AsyncCollection.step, AsyncCollection.semaphoreStep, AsyncSemaphore.step, hfree] at hp
  | taking i =>
    have hcalling : i ∉ (s.block ()).inputItems.asyncSemaphore.critical.calling := by
      rw [hfree]
      exact List.not_mem_nil
    simp only [Block.process, hproc, if_neg hcalling] at hp
    cases hout : (s.block ()).inputItems.outcome i with
    | some r => cases r <;> simp [hout] at hp
    | none =>
      have hwait :
          ((s.block ()).inputItems.asyncSemaphore.waitTask i).state.isCompleted = false := by
        by_contra hdone
        simp [hout, AsyncCollection.step, hcalling, hdone] at hp
      refine hall (by simp [Block.hand, hproc, hout]) ?_
      exact Stuck.empty_of_taking ha hq (hh.queue (by rw [hproc]; rfl)) hfree hadding hproc hwait
  | invoke x rest => simp [Block.process, hproc] at hp
  | asking y ask offer rest =>
    have htargets := hf.work.targets
    rw [hleaf, List.sublist_nil, hproc, Processing.targets, List.append_eq_nil_iff] at htargets
    simp [Block.process, hproc, htargets.2] at hp
  | offering y phase offer rest =>
    have htargets := hf.work.targets
    rw [hleaf, List.sublist_nil, hproc, Processing.targets] at htargets
    simp [Block.process, hproc, htargets] at hp
  | drain => simp [Block.process, hproc, AsyncCollection.step] at hp
  | failed e => simp [Block.process, hproc] at hp
  | finished r =>
    have hnot := hh.notFailed
    rw [hproc] at hnot
    cases r with
    | error e => cases hnot
    | ok u => exact hall (by simp [Block.hand, hproc]) (hq.closed (by rw [hproc]; rfl))

end AsyncCpp.Actors
